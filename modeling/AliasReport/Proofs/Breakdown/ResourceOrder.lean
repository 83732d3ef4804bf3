import AliasReport.Breakdown.Allocation
import AliasReport.Proofs.Sorting
import Mathlib.Data.List.Nodup
import Mathlib.Data.Prod.Lex

/-! # Resources in order

Resources are compared by offset, then size, then handle. Every two of them can be compared, and
those that stand before one another agree in all three. Names and kinds are not compared, so
distinct handles are what makes the order strict; elsewhere, resources that agree in all three keep
the order in which they were listed.

* **`precedes_iff`**, **`precedes_iff_key`** — the comparison on natural numbers, and as the
  lexicographic order of keys.
* **`comparesBy_key`** — resources are sorted by their keys, so the laws of sorting by a key apply.
* **`sortResources_congr`** — where handles are distinct, sorting forgets the order it was given.
* **`ofKey_sortResources`** — resources of one key stand as they did before.
* **`sortResources_stable`** — what sorting does, and that nothing else does this. -/

namespace AliasReport

/-- **The comparison of resources**, on natural numbers. -/
theorem Resource.precedes_iff {r s : Resource} :
    r.precedes s = true ↔
      r.offset.toNat < s.offset.toNat ∨ r.offset.toNat = s.offset.toNat ∧
        (r.size.toNat < s.size.toNat ∨ r.size.toNat = s.size.toNat ∧
          r.handle.toNat ≤ s.handle.toNat) := by
  simp only [Resource.precedes, ← UInt64.toNat_inj]
  split
  · split
    · simp [*, UInt64.le_iff_toNat_le]
    · simp [*, UInt64.lt_iff_toNat_lt]
  · simp [*, UInt64.lt_iff_toNat_lt]

/-! ## Keys -/

/-- What resources are compared by: offset, then size, then handle. -/
def Resource.key (r : Resource) : ℕ ×ₗ ℕ ×ₗ ℕ :=
  toLex (r.offset.toNat, toLex (r.size.toNat, r.handle.toNat))

/-- **The order of resources is the lexicographic order of their keys.** -/
theorem Resource.precedes_iff_key {r s : Resource} : r.precedes s = true ↔ r.key ≤ s.key := by
  rw [Resource.precedes_iff, Resource.key, Resource.key, Prod.Lex.toLex_le_toLex,
    Prod.Lex.toLex_le_toLex]

/-- Resources of one key have one handle. -/
theorem Resource.handle_eq_of_key {r s : Resource} (h : r.key = s.key) : r.handle = s.handle :=
  UInt64.toNat_inj.mp (congrArg (fun k => (ofLex (ofLex k).2).2) h)

/-! ## Sorting -/

/-- The resources of a key. -/
def ofKey (key : ℕ ×ₗ ℕ ×ₗ ℕ) (rs : List Resource) : List Resource :=
  rs.filter (·.key = key)

/-- Sorting compares keys. -/
theorem comparesBy_key : ComparesBy Resource.key Resource.precedes :=
  fun _ _ => Resource.precedes_iff_key

/-- The result of sorting is in order of keys. -/
theorem sortResources_pairwise (rs : List Resource) :
    (sortResources rs).Pairwise (·.key ≤ ·.key) :=
  comparesBy_key.mergeSort_pairwise rs

/-- **Where handles are distinct, sorting forgets the order** in which resources were listed. -/
theorem sortResources_congr {rs ss : List Resource} (h : rs.Perm ss)
    (hdistinct : (rs.map (·.handle)).Nodup) : sortResources rs = sortResources ss :=
  comparesBy_key.mergeSort_congr h fun _ hr _ hs hkey =>
    List.inj_on_of_nodup_map hdistinct hr hs (Resource.handle_eq_of_key hkey)

/-- **Resources of one key keep their order.** -/
theorem ofKey_sortResources (key : ℕ ×ₗ ℕ ×ₗ ℕ) (rs : List Resource) :
    ofKey key (sortResources rs) = ofKey key rs :=
  comparesBy_key.filter_mergeSort key rs

/-- **Sorting resources.** The result holds the same resources, in order of offset, then size, then
handle, and those that agree in all three stand as they did before. Sorting again changes nothing;
where handles are distinct, every order in which the resources are listed gives the same result.
No other list is in order and keeps resources of one key as they stand. -/
theorem sortResources_stable (rs : List Resource) :
    (sortResources rs).Perm rs ∧
    (sortResources rs).Pairwise (·.key ≤ ·.key) ∧
    (∀ key, ofKey key (sortResources rs) = ofKey key rs) ∧
    sortResources (sortResources rs) = sortResources rs ∧
    ((rs.map (·.handle)).Nodup → ∀ ss, ss.Perm rs → sortResources ss = sortResources rs) ∧
    ∀ ss, ss.Pairwise (·.key ≤ ·.key) → (∀ key, ofKey key ss = ofKey key rs) →
      ss = sortResources rs := by
  refine ⟨sortResources_perm rs, sortResources_pairwise rs,
    fun key => ofKey_sortResources key rs, ?_, ?_, ?_⟩
  · exact List.mergeSort_of_pairwise
      ((sortResources_pairwise rs).imp Resource.precedes_iff_key.mpr)
  · exact fun hdistinct ss h => (sortResources_congr h.symm hdistinct).symm
  · intro ss hss h
    refine eq_of_filter_key hss (sortResources_pairwise rs) fun key => ?_
    exact (h key).trans (ofKey_sortResources key rs).symm

end AliasReport

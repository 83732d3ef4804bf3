import AliasReport.Proofs.Aliasing.Layout
import Mathlib

/-! # Addresses and identifiers on another scale

Where addresses are moved without changing their order, and identifiers renamed without changing
theirs, the regions move along and their sharers are renamed. So what bindings in a small window of
addresses show holds of bindings anywhere.

* **`IncreasingOn`** — maps that keep the order of the words of a list.
* **`Binding.rescale`**, **`Region.rescale`** — a binding and a region under two such maps.
* **`ascending_map`**, **`stretches_map`**, **`activeIds_rescale`** — every part of the sweep moves
  along.
* **`aliasedRegions_rescale`** — so do the regions, and a repeated identifier is renamed. -/

namespace AliasReport

/-! ## Maps that keep an order -/

/-- A map is strictly increasing on the words of a list. -/
def IncreasingOn (f : UInt64 → UInt64) (xs : List UInt64) : Prop :=
  ∀ x ∈ xs, ∀ y ∈ xs, x < y → f x < f y

namespace IncreasingOn

variable {f : UInt64 → UInt64} {xs : List UInt64} {x y : UInt64}

/-- Numbers among those that occur are mapped to larger ones if and only if they are larger. -/
theorem lt_iff (h : IncreasingOn f xs) (hx : x ∈ xs) (hy : y ∈ xs) : f x < f y ↔ x < y := by
  refine ⟨fun hlt => ?_, h x hx y hy⟩
  by_contra hge
  rcases UInt64.lt_or_eq_of_le (UInt64.not_lt.mp hge) with hyx | rfl
  · exact UInt64.lt_asymm hlt (h y hy x hx hyx)
  · exact UInt64.lt_irrefl _ hlt

/-- The same for numbers that may be equal. -/
theorem le_iff (h : IncreasingOn f xs) (hx : x ∈ xs) (hy : y ∈ xs) : f x ≤ f y ↔ x ≤ y := by
  rw [← UInt64.not_lt, ← UInt64.not_lt, h.lt_iff hy hx]

/-- Different words stay different. -/
theorem inj (h : IncreasingOn f xs) (hx : x ∈ xs) (hy : y ∈ xs) : f x = f y ↔ x = y := by
  refine ⟨fun heq => UInt64.le_antisymm ?_ ?_, congrArg f⟩
  · exact (h.le_iff hx hy).mp (heq ▸ UInt64.le_refl _)
  · exact (h.le_iff hy hx).mp (heq ▸ UInt64.le_refl _)

/-- An ascending list of such words stays ascending. -/
theorem pairwise_map (h : IncreasingOn f xs) {ys : List UInt64} (hys : ∀ y ∈ ys, y ∈ xs)
    (hasc : ys.Pairwise (· < ·)) : (ys.map f).Pairwise (· < ·) :=
  List.pairwise_map.mpr (hasc.imp_of_mem fun hx hy => h _ (hys _ hx) _ (hys _ hy))

end IncreasingOn

/-- **Points move along**: in ascending order, each of them once. -/
theorem ascending_map {f : UInt64 → UInt64} {xs : List UInt64} (h : IncreasingOn f xs) :
    ascending (xs.map f) = (ascending xs).map f := by
  have hmoved : ((ascending xs).map f).Pairwise (· < ·) :=
    h.pairwise_map (fun _ => mem_ascending.mp) (ascending_pairwise xs)
  refine (ascending_pairwise _).eq_of_mem_iff hmoved fun x => ?_
  simp only [mem_ascending, List.mem_map]

/-- Stretches move along with their points. -/
theorem stretches_map (f : UInt64 → UInt64) (points : List UInt64) :
    stretches (points.map f) = (stretches points).map (Prod.map f f) := by
  rw [stretches, List.map_tail.symm, List.zip_map, stretches]

/-- The least repeated identifier is renamed. -/
theorem leastRepeated_map {g : UInt64 → UInt64} {ids : List UInt64} (h : IncreasingOn g ids)
    {id : UInt64} (hid : leastRepeated ids = some id) :
    leastRepeated (ids.map g) = some (g id) := by
  obtain ⟨hcount, hleast⟩ := leastRepeated_spec hid
  have hmem : ∀ {j}, 2 ≤ ids.count j → j ∈ ids := fun hj => List.count_pos_iff.mp (by omega)
  have hcount_map : ∀ j ∈ ids, (ids.map g).count (g j) = ids.count j := by
    intro j hj
    rw [List.count, List.countP_map, List.count]
    refine List.countP_congr fun i hi => ?_
    simp [h.inj hi hj]
  -- The image that is repeated and least comes from an identifier that is repeated and least.
  cases hrepeated : leastRepeated (ids.map g) with
  | none =>
    have hnodup := leastRepeated_eq_none_iff.mp hrepeated
    have hone := List.nodup_iff_count_le_one.mp hnodup (g id)
    rw [hcount_map id (hmem hcount)] at hone
    omega
  | some k =>
    obtain ⟨hk, hkleast⟩ := leastRepeated_spec hrepeated
    obtain ⟨j, hj, rfl⟩ := List.mem_map.mp (List.count_pos_iff.mp (Nat.zero_lt_of_lt hk))
    rw [hcount_map j hj] at hk
    have hle : g j ≤ g id := hkleast (g id) (by rwa [hcount_map id (hmem hcount)])
    rw [UInt64.le_antisymm ((h.le_iff hj (hmem hcount)).mp hle) (hleast j hk)]

/-! ## Bindings -/

/-- The binding that reaches from the image of the offset to the image of the end, under another
identifier. -/
def Binding.rescale (f g : UInt64 → UInt64) (b : Binding) : Binding :=
  ⟨g b.id, f b.offset, f (b.offset + b.size) - f b.offset⟩

/-- The region that reaches from the image of the offset to the image of the end, shared by the
renamed identifiers. -/
def Region.rescale (f g : UInt64 → UInt64) (r : Region) : Region :=
  ⟨f r.offset, f r.end - f r.offset, r.sharers.map g⟩

/-- A binding ends at the image of its end. -/
theorem Binding.rescale_end (f g : UInt64 → UInt64) (b : Binding) :
    (b.rescale f g).offset + (b.rescale f g).size = f (b.offset + b.size) := by
  rw [Binding.rescale, UInt64.add_comm, UInt64.sub_add_cancel]

/-- The endpoints of rescaled bindings are the rescaled endpoints. -/
theorem endpoints_rescale (f g : UInt64 → UInt64) (bs : List Binding) :
    endpoints (bs.map (Binding.rescale f g)) = (endpoints bs).map f := by
  simp only [endpoints, List.flatMap_map, List.map_flatMap, Binding.rescale_end]
  rfl

section

variable {f g : UInt64 → UInt64} {bs : List Binding} (hfits : ∀ b ∈ bs, b.Fits)
  (hf : IncreasingOn f (endpoints bs)) (hg : IncreasingOn g (bs.map (·.id)))

include hfits hf

/-- The end of a binding as a natural number is the image of its end. -/
theorem Binding.stop_rescale {b : Binding} (hb : b ∈ bs) :
    (b.rescale f g).stop = (f (b.offset + b.size)).toNat := by
  -- The size is a difference of images, which does not wrap because `f` keeps their order.
  have hle : b.offset ≤ b.offset + b.size := by
    rw [UInt64.le_iff_toNat_le, (hfits b hb).toNat_end, Binding.stop]
    omega
  have hle := (hf.le_iff (offset_mem_endpoints hb) (end_mem_endpoints hb)).mpr hle
  simp only [Binding.stop, Binding.rescale, UInt64.toNat_sub_of_le _ _ hle]
  exact Nat.add_sub_cancel' (UInt64.le_iff_toNat_le.mp hle)

/-- A binding that fits still does. -/
theorem Binding.fits_rescale {b : Binding} (hb : b ∈ bs) : (b.rescale f g).Fits := by
  rw [Binding.Fits, Binding.stop_rescale hfits hf hb]
  exact UInt64.toNat_lt_size _

/-- A binding is empty exactly if it was. -/
theorem Binding.rescale_size_ne_zero_iff {b : Binding} (hb : b ∈ bs) :
    (b.rescale f g).size ≠ 0 ↔ b.size ≠ 0 := by
  rw [Binding.size_ne_zero_iff, Binding.size_ne_zero_iff, Binding.stop_rescale hfits hf hb,
    ← (hfits b hb).toNat_end]
  exact hf.lt_iff (offset_mem_endpoints hb) (end_mem_endpoints hb)

include hg

/-- Behind a point the same identifiers are active under their new names. -/
theorem activeBelow_rescale_iff {p : UInt64} (hp : p ∈ endpoints bs) {id : UInt64}
    (hid : id ∈ bs.map (·.id)) :
    ActiveBelow (bs.map (Binding.rescale f g)) ((f p).toNat + 1) (g id) ↔
      ActiveBelow bs (p.toNat + 1) id := by
  have hmem : ∀ {b}, b ∈ bs → b.id ∈ bs.map (·.id) := fun hb => List.mem_map_of_mem hb
  -- Every comparison is one between endpoints, so that it comes out the same.
  have hle : ∀ {x y}, x ∈ endpoints bs → y ∈ endpoints bs →
      ((f x).toNat ≤ (f y).toNat ↔ x.toNat ≤ y.toNat) := hf.le_iff
  have hends : ∀ c ∈ bs, c.stop = (c.offset + c.size).toNat := fun c hc =>
    (hfits c hc).toNat_end.symm
  simp only [ActiveBelow, List.mem_map, exists_exists_and_eq_and, forall_exists_index, and_imp,
    forall_apply_eq_imp_iff₂, Nat.lt_succ_iff]
  refine exists_congr fun b => and_congr_right fun hb => ?_
  refine and_congr (hg.inj (hmem hb) hid) (and_congr
    (Binding.rescale_size_ne_zero_iff hfits hf hb) (and_congr
    (hle (offset_mem_endpoints hb) hp) (forall₂_congr fun c hc => ?_)))
  rw [Binding.stop_rescale hfits hf hc, Binding.rescale_size_ne_zero_iff hfits hf hc, hends c hc]
  exact imp_congr (hg.inj (hmem hc) hid) (imp_congr_right fun _ => imp_congr
    (hle (end_mem_endpoints hc) hp) (hle (end_mem_endpoints hc) (offset_mem_endpoints hb)))

/-- **The active identifiers are renamed.** -/
theorem activeIds_rescale {p : UInt64} (hp : p ∈ endpoints bs) :
    activeIds (bs.map (Binding.rescale f g)) ((f p).toNat + 1) =
      (activeIds bs (p.toNat + 1)).map g := by
  have hids : ∀ {b n id}, ActiveBelow b n id → id ∈ b.map (·.id) := by
    rintro b n id ⟨c, hc, rfl, -⟩
    exact List.mem_map_of_mem hc
  have hrenamed : ((activeIds bs (p.toNat + 1)).map g).Pairwise (· < ·) :=
    hg.pairwise_map (fun _ hid => hids (mem_activeIds.mp hid)) (activeIds_pairwise bs _)
  refine (activeIds_pairwise _ _).eq_of_mem_iff hrenamed fun y => ?_
  rw [mem_activeIds, List.mem_map]
  simp only [mem_activeIds]
  constructor
  · intro hy
    obtain ⟨b, hb, rfl⟩ := List.mem_map.mp (List.map_map ▸ hids hy)
    exact ⟨b.id, (activeBelow_rescale_iff hfits hf hg hp (List.mem_map_of_mem hb)).mp hy, rfl⟩
  · rintro ⟨id, hid, rfl⟩
    exact (activeBelow_rescale_iff hfits hf hg hp (hids hid)).mpr hid

/-- **The shared regions move along.** -/
theorem sharedRegions_rescale :
    sharedRegions (bs.map (Binding.rescale f g)) =
      (sharedRegions bs).map (Region.rescale f g) := by
  rw [sharedRegions, endpoints_rescale, ascending_map hf, stretches_map, List.filterMap_map,
    sharedRegions, List.map_filterMap]
  refine List.filterMap_congr fun s hs => ?_
  have hp : s.1 ∈ endpoints bs := mem_ascending.mp (mem_of_mem_stretches hs).1
  have hup : s.1 < s.2 := (stretch_spec (ascending_pairwise _) hs).1
  simp only [Function.comp_apply, Prod.map, region?, activeIds_rescale hfits hf hg hp,
    List.length_map]
  split
  · rw [Option.map_some, Region.rescale, end_stretch hup]
  · rfl

/-- Bindings that are accepted still are. -/
theorem Accepted.rescale {policy : DuplicatePolicy} (h : Accepted policy bs) :
    Accepted policy (bs.map (Binding.rescale f g)) where
  fits := List.forall_mem_map.mpr fun _ hb => Binding.fits_rescale hfits hf hb
  distinct hp := by
    have hids : (bs.map (Binding.rescale f g)).map (·.id) = (bs.map (·.id)).map g := by
      simp only [List.map_map]
      rfl
    rw [hids]
    exact (h.distinct hp).map_on fun x hx y hy => (hg.inj hx hy).mp

/-- **Only the order of addresses and of identifiers matters.** Let `f` be strictly increasing on
the offsets and ends of bindings that fit, and `g` on their identifiers. The binding from the image
of the offset to that of the end fits as well. If the bindings have regions, the images have theirs
from the image of each offset to that of the end, with the renamed sharers and in the same order. If
an identifier is repeated, its image is. -/
theorem aliasedRegions_rescale (policy : DuplicatePolicy) :
    (∀ b ∈ bs, (b.rescale f g).Fits ∧
      (b.rescale f g).offset + (b.rescale f g).size = f (b.offset + b.size)) ∧
    (∀ rs, aliasedRegions policy bs = .ok rs →
      aliasedRegions policy (bs.map (Binding.rescale f g)) = .ok (rs.map (Region.rescale f g)) ∧
        ∀ r ∈ rs, (r.rescale f g).end = f r.end) ∧
    ∀ id, aliasedRegions policy bs = .error (.repeated id) →
      aliasedRegions policy (bs.map (Binding.rescale f g)) = .error (.repeated (g id)) := by
  refine ⟨fun b hb => ⟨Binding.fits_rescale hfits hf hb, b.rescale_end f g⟩, fun rs hrs => ?_,
    fun id hid => ?_⟩
  · obtain ⟨haccepted, rfl⟩ := aliasedRegions_eq_ok_iff.mp hrs
    refine ⟨aliasedRegions_eq_ok_iff.mpr
      ⟨haccepted.rescale hfits hf hg, sharedRegions_rescale hfits hf hg⟩, fun r hr => ?_⟩
    -- The ends of a region are boundary points, so that `f` keeps their order.
    have hspan := span_mem_stretches hr
    obtain ⟨hoffset, hend⟩ := mem_of_mem_stretches hspan
    have hup := (stretch_spec (ascending_pairwise _) hspan).1
    exact end_stretch (s := (f r.offset, f r.end))
      (hf _ (mem_ascending.mp hoffset) _ (mem_ascending.mp hend) hup) _
  · rw [aliasedRegions_eq_error_iff, check_eq_repeated_iff] at hid ⊢
    obtain ⟨-, hp, hrepeated⟩ := hid
    refine ⟨List.forall_mem_map.mpr fun b hb => Binding.fits_rescale hfits hf hb, hp, ?_⟩
    rw [← leastRepeated_map hg hrepeated, List.map_map, List.map_map]
    rfl

end

/-- A repeated identifier, a binding that is empty and another that is not in the middle of a third,
moved apart and up to the last address. -/
theorem aliasedRegions_rescale_to_last_address :
    let bs : List Binding := [⟨5, 0, 10⟩, ⟨6, 4, 6⟩, ⟨7, 5, 0⟩, ⟨8, 5, 2⟩, ⟨5, 7, 3⟩]
    let rs : List Region := [⟨4, 1, [5, 6]⟩, ⟨5, 2, [5, 6, 8]⟩, ⟨7, 3, [5, 6]⟩]
    let f (x : UInt64) : UInt64 := 0xFFFFFFFFFFFFFFFF - (10 - x) * (10 - x)
    let g (id : UInt64) : UInt64 := id * 1000
    rs.map (Region.rescale f g) =
        [⟨0xFFFFFFFFFFFFFFDB, 11, [5000, 6000]⟩, ⟨0xFFFFFFFFFFFFFFE6, 16, [5000, 6000, 8000]⟩,
          ⟨0xFFFFFFFFFFFFFFF6, 9, [5000, 6000]⟩] ∧
      (aliasedRegions .merge bs = .ok rs ∧
        aliasedRegions .merge (bs.map (Binding.rescale f g)) =
          .ok (rs.map (Region.rescale f g))) ∧
      (aliasedRegions .reject bs = .error (.repeated 5) ∧
        aliasedRegions .reject (bs.map (Binding.rescale f g)) = .error (.repeated (g 5))) := by
  intro bs rs f g
  have hfits : ∀ b ∈ bs, b.Fits := by decide
  have hf : IncreasingOn f (endpoints bs) := by simp [IncreasingOn, endpoints, bs, f]
  have hg : IncreasingOn g (bs.map (·.id)) := by simp [IncreasingOn, bs, g]
  have hregions : aliasedRegions .merge bs = .ok rs := by cbv
  have hrepeated : aliasedRegions .reject bs = .error (.repeated 5) := by cbv
  have hmoved := ((aliasedRegions_rescale hfits hf hg .merge).2.1 _ hregions).1
  have hrenamed := (aliasedRegions_rescale hfits hf hg .reject).2.2 _ hrepeated
  exact ⟨by cbv, ⟨hregions, hmoved⟩, hrepeated, hrenamed⟩

end AliasReport

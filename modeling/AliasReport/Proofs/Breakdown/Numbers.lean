import AliasReport.Proofs.Json.Numbers
import AliasReport.Snapshot.Format

/-! # Numbers in snapshots

A number in a snapshot is the number that is written there or the snapshot is rejected: nothing is
cut to the width of a word and nothing is rounded. This holds for the members of allocations and
resources, which are read at once, and for those of kinds, which are buffered before.

* **`Breakdown.faithful`** — documents hold nothing but what the breakdown does.
* **`Breakdown.wordAt?`**, **`Breakdown.setWord`** — the numbers of a breakdown by their paths.
* **`Breakdown.numbers`** — all members that are numbers, with their widths.
* **`parse_literal_at`** — what becomes of a snapshot with another literal in it. -/

namespace AliasReport

open AliasReport.Document AliasReport.Number

/-! ## Documents of breakdowns -/

/-- Every word of an aspect stands for one. -/
theorem Aspect.faithful : Described.Faithful Aspect := by
  intro (v : Fin 3)
  obtain rfl | rfl | rfl : v = 0 ∨ v = 1 ∨ v = 2 := by omega
  all_goals rfl

/-- A case in the shape of kinds is the one of the kind that is made of it. -/
theorem ResourceKind.toCase_ofCase : (v : ResourceKind.cases.Val) → toCase (ofCase v) = v
  | .inl () => rfl
  | .inr (.inl ()) => rfl
  | .inr (.inr (.inl (x, y, width, height, level, layer, aspects, ()))) => by
    have haspects := Aspect.faithful.list aspects
    simp only [ofCase, toCase, haspects]
    rfl
  | .inr (.inr (.inr (.inl (layer, offset, ())))) => rfl
  | .inr (.inr (.inr (.inr (.inl (layer, offset, aspects, ()))))) => by
    have haspects := Aspect.faithful.list aspects
    simp only [ofCase, toCase, haspects]
    rfl
  | .inr (.inr (.inr (.inr (.inr (.inl (offset, ())))))) => rfl
  | .inr (.inr (.inr (.inr (.inr (.inr (.inl (offset, ()))))))) => rfl

/-- Every document of a flag constant is that of one. -/
theorem FlagConstant.faithful : Described.Faithful FlagConstant := fun _ => rfl

/-- Every document of a host mapping is that of one. -/
theorem HostMapping.faithful : Described.Faithful HostMapping := fun _ => rfl

/-- Every document of a resource is that of one. -/
theorem Resource.faithful : Described.Faithful Resource := by
  rintro ⟨handle, name, offset, size, kind, ⟨⟩⟩
  exact congrArg (fun kind => (handle, name, offset, size, kind, ()))
    (ResourceKind.toCase_ofCase kind)

/-- Every document of an allocation is that of one. -/
theorem Allocation.faithful : Described.Faithful Allocation := by
  rintro ⟨handle, name, device, memoryType, size, flags, mapping, bindings, ⟨⟩⟩
  have hmapping := HostMapping.faithful.option mapping
  have hbindings := Resource.faithful.list bindings
  exact congrArg₂ (fun mapping bindings =>
    (handle, name, device, memoryType, size, flags, mapping, bindings, ())) hmapping hbindings

/-- **Documents of breakdowns** hold nothing but what the breakdowns do. -/
theorem Breakdown.faithful : Described.Faithful Breakdown := by
  rintro ⟨api, flags, allocations, ⟨⟩⟩
  have hstring : Described.Faithful String := fun _ => rfl
  exact Prod.ext (hstring.option api) (Prod.ext (FlagConstant.faithful.list flags)
    (Prod.ext (Allocation.faithful.list allocations) rfl))

/-! ## Numbers -/

/-- **The number at the end of a path** into the document of a breakdown, with its width. -/
def Breakdown.wordAt? (b : Breakdown) (path : List Selector) : Option (Width × Nat) :=
  (Described.shape Breakdown).wordAt? path (Described.toVal b)

/-- The breakdown with another number at the end of a path. -/
def Breakdown.setWord (b : Breakdown) (path : List Selector) (n : Nat) : Breakdown :=
  Described.ofVal ((Described.shape Breakdown).setWord path n (Described.toVal b))

/-- What has been set is there. -/
theorem Breakdown.wordAt?_setWord {b : Breakdown} {path : List Selector} {w : Width} {k n : Nat}
    (hn : n < w.bound) (h : b.wordAt? path = some (w, k)) :
    (b.setWord path n).wordAt? path = some (w, n) := by
  unfold wordAt? setWord
  rw [Breakdown.faithful]
  exact (Described.shape Breakdown).wordAt?_setWord hn h

/-! ## The members that are numbers -/

/-- Numbers with the paths to them and their widths. -/
abbrev Numbers := List (List Selector × Width × Nat)

/-- A member of 64 bits. -/
def wide (name : String) (n : UInt64) : List Selector × Width × Nat :=
  ([.member name], .u64, n.toNat)

/-- A member of 32 bits. -/
def narrow (name : String) (n : UInt32) : List Selector × Width × Nat :=
  ([.member name], .u32, n.toNat)

/-- Numbers seen from one step before. -/
def Numbers.behind (step : Selector) (ns : Numbers) : Numbers :=
  ns.map fun x => (step :: x.1, x.2)

/-- The numbers in the items of a list. -/
def Numbers.ofItems {α : Type} (f : α → Numbers) (as : List α) : Numbers :=
  as.zipIdx.flatMap fun x => (f x.1).behind (.item x.2)

/-- The numbers of a flag constant. -/
def FlagConstant.numbers (c : FlagConstant) : Numbers := [wide "value" c.value]

/-- The numbers of a host mapping. -/
def HostMapping.numbers (m : HostMapping) : Numbers :=
  [wide "mapped_address" m.mappedAddress, wide "offset" m.offset, wide "size" m.size]

/-- The numbers that go with a kind. -/
def ResourceKind.numbers : ResourceKind → Numbers
  | .buffer | .image => []
  | .sparseImageBlock x y width height level layer _ =>
    [narrow "x_offset" x, narrow "y_offset" y, narrow "width" width, narrow "height" height,
      narrow "mip_level" level, narrow "array_layer" layer]
  | .sparseImageMetadata layer offset => [narrow "array_layer" layer, wide "offset" offset]
  | .sparseImageMipTail layer offset _ => [narrow "array_layer" layer, wide "offset" offset]
  | .sparseOpaqueImageBlock offset => [wide "offset" offset]
  | .sparseBufferBlock offset => [wide "offset" offset]

/-- The numbers of a resource. -/
def Resource.numbers (r : Resource) : Numbers :=
  [wide "handle" r.handle, wide "offset" r.offset, wide "size" r.size] ++
    r.kind.numbers.behind (.member "kind")

/-- The numbers of an allocation. -/
def Allocation.numbers (a : Allocation) : Numbers :=
  [wide "handle" a.handle, wide "device" a.device, narrow "memory_type" a.memoryType,
      wide "size" a.size, wide "flags" a.flags] ++
    (a.mapping.elim [] fun m => m.numbers.behind (.member "mapping")) ++
    (Numbers.ofItems Resource.numbers a.bindings).behind (.member "bindings")

/-- **The numbers of a breakdown.** -/
def Breakdown.numbers (b : Breakdown) : Numbers :=
  (Numbers.ofItems FlagConstant.numbers b.allocationFlags).behind (.member "allocation_flags") ++
    (Numbers.ofItems Allocation.numbers b.allocations).behind (.member "allocations")

/-- The numbers stand in the document of a value at the ends of their paths. -/
def Numbers.In {α : Type} [Described α] (ns : Numbers) (a : α) : Prop :=
  ∀ x ∈ ns, (Described.shape α).wordAt? x.1 (Described.toVal a) = some x.2

section

variable {α β : Type} [Described α] [Described β]

/-- Numbers of two lists stand in a document if those of each list do. -/
theorem Numbers.In.append {ns ns' : Numbers} {a : α} (h : ns.In a) (h' : ns'.In a) :
    (ns ++ ns').In a :=
  List.forall_mem_append.mpr ⟨h, h'⟩

/-- What holds a value holds its numbers, one step further away. -/
theorem Numbers.In.behind {ns : Numbers} {a : α} {b : β} {step : Selector} (h : ns.In a)
    (hstep : ∀ path, (Described.shape β).wordAt? (step :: path) (Described.toVal b) =
      (Described.shape α).wordAt? path (Described.toVal a)) : (ns.behind step).In b := by
  intro x hx
  obtain ⟨y, hy, rfl⟩ := List.mem_map.mp hx
  exact (hstep y.1).trans (h y hy)

/-- A list holds the numbers of its items. -/
theorem Numbers.in_ofItems {f : α → Numbers} (h : ∀ a, (f a).In a) (as : List α) :
    (Numbers.ofItems f as).In as := by
  intro x hx
  obtain ⟨⟨a, i⟩, ha, hx⟩ := List.mem_flatMap.mp hx
  have hitem : as[i]? = some a := List.mk_mem_zipIdx_iff_getElem?.mp ha
  refine (h a).behind (fun path => ?_) x hx
  change ((as.map Described.toVal)[i]?).bind ((Described.shape α).wordAt? path) = _
  rw [List.getElem?_map, hitem]
  rfl

end

/-- The value of a flag constant stands in its document. -/
theorem FlagConstant.numbers_in (c : FlagConstant) : c.numbers.In c :=
  List.forall_mem_singleton.mpr rfl

/-- The numbers of a host mapping stand in its document. -/
theorem HostMapping.numbers_in (m : HostMapping) : m.numbers.In m := by
  simp only [Numbers.In, HostMapping.numbers, List.forall_mem_cons]
  exact ⟨rfl, rfl, rfl, nofun⟩

/-- The numbers of a kind stand in its document, under the member that its case names. -/
theorem ResourceKind.numbers_in (k : ResourceKind) : k.numbers.In k := by
  cases k <;> simp only [Numbers.In, ResourceKind.numbers, List.forall_mem_cons]
  case buffer => exact nofun
  case image => exact nofun
  case sparseImageBlock => exact ⟨rfl, rfl, rfl, rfl, rfl, rfl, nofun⟩
  case sparseImageMetadata => exact ⟨rfl, rfl, nofun⟩
  case sparseImageMipTail => exact ⟨rfl, rfl, nofun⟩
  case sparseOpaqueImageBlock => exact ⟨rfl, nofun⟩
  case sparseBufferBlock => exact ⟨rfl, nofun⟩

/-- The numbers of a resource stand in its document, those of its kind among them. -/
theorem Resource.numbers_in (r : Resource) : r.numbers.In r := by
  refine .append ?_ (r.kind.numbers_in.behind fun _ => rfl)
  simp only [Numbers.In, List.forall_mem_cons]
  exact ⟨rfl, rfl, rfl, nofun⟩

/-- The numbers of an allocation stand in its document, those of what it holds among them. -/
theorem Allocation.numbers_in (a : Allocation) : a.numbers.In a := by
  refine .append (.append ?_ ?_)
    ((Numbers.in_ofItems Resource.numbers_in a.bindings).behind fun _ => rfl)
  · simp only [Numbers.In, List.forall_mem_cons]
    exact ⟨rfl, rfl, rfl, rfl, rfl, nofun⟩
  · obtain ⟨handle, name, device, memoryType, size, flags, _ | m, bindings⟩ := a
    · exact nofun
    · exact m.numbers_in.behind fun _ => rfl

/-- **Every number of a breakdown** stands in its document at the end of its path. -/
theorem Breakdown.wordAt?_of_mem_numbers (b : Breakdown) :
    ∀ x ∈ b.numbers, b.wordAt? x.1 = some x.2 :=
  Numbers.In.append
    ((Numbers.in_ofItems FlagConstant.numbers_in b.allocationFlags).behind fun _ => rfl)
    ((Numbers.in_ofItems Allocation.numbers_in b.allocations).behind fun _ => rfl)

namespace Json

/-! ## Literals -/

/-- **Numbers are neither cut nor rounded.** Where a snapshot that is parsed has a number, another
literal is parsed as its value if it is a plain natural number that the width of the member has room
for, and nothing else of the breakdown changes. With a literal that is too large, or has a sign, a
fraction or an exponent, the snapshot is rejected. The members that are numbers are all of this kind,
with the widths that `Breakdown.numbers` gives them. -/
theorem parse_literal_at {pre post lit lit' : List Char} {n n' : Numeral} (hlit : n.Literal lit)
    (hlit' : n'.Literal lit') (hpost : Numeral.Apart post) {path : List Selector}
    (hplace : StandsAt path (pre ++ (lit ++ post)) (lit ++ post)) {b : Breakdown}
    (hparse : Format.json.parse (String.ofList (pre ++ (lit ++ post))) = .ok b) {w : Width}
    {k : Nat} (hword : b.wordAt? path = some (w, k)) :
    (∀ m, n'.plain? = some m → m < w.bound →
      Format.json.parse (String.ofList (pre ++ (lit' ++ post))) = .ok (b.setWord path m) ∧
        (b.setWord path m).wordAt? path = some (w, m)) ∧
    (∀ m, n'.plain? = some m → w.bound ≤ m →
      ∃ fault, Format.json.parse (String.ofList (pre ++ (lit' ++ post))) = .error fault) ∧
    (n'.negative = true ∨ n'.fraction ≠ none ∨ n'.exponent ≠ none →
      ∃ fault, Format.json.parse (String.ofList (pre ++ (lit' ++ post))) = .error fault) ∧
    ∀ x ∈ b.numbers, b.wordAt? x.1 = some x.2 := by
  have hdecode := mapError_eq_ok_iff.mp hparse
  have hset := decode_literal_at Breakdown.faithful hlit hlit' hpost hplace hdecode hword
  -- Whatever is no word of this width is rejected, for one reason or another.
  have hfault : n'.plain?.filter (· < w.bound) = none →
      ∃ fault, Format.json.parse (String.ofList (pre ++ (lit' ++ post))) = .error fault := by
    intro hnone
    rw [hnone] at hset
    unfold Format.parse
    cases hresult : decode Breakdown (String.ofList (pre ++ (lit' ++ post))) with
    | error fault => exact ⟨.json fault, rfl⟩
    | ok b' =>
      rw [hresult] at hset
      cases hset
  refine ⟨fun m hm hlt => ⟨?_, Breakdown.wordAt?_setWord hlt hword⟩,
    fun m hm hle => hfault ?_, fun hmark => hfault ?_, b.wordAt?_of_mem_numbers⟩
  · have hsome : n'.plain?.filter (· < w.bound) = some m := by simp [hm, hlt]
    rw [hsome] at hset
    exact mapError_eq_ok_iff.mpr (toOption_eq_some_iff.mp hset)
  · simpa [hm] using hle
  · rw [Numeral.plain?_eq_none_iff.mpr hmark]
    rfl

/-- A breakdown with one resource, which is a block of a buffer. -/
def oneBlock (offset : UInt64) : Breakdown :=
  ⟨none, [], [⟨1, "", 0, 0, 8, 0, none, [⟨2, "", 0, 4, .sparseBufferBlock offset⟩]⟩]⟩

/-- A snapshot of this breakdown up to the offset of the block, whose kind does not have its tag in
front. -/
def blockFront : List Char :=
  '\x7b' :: (quoted "allocations" ++ ':' :: '[' :: '\x7b' :: (quoted "bindings" ++ ':' :: '[' ::
    '\x7b' :: (quoted "kind" ++ ':' :: '\x7b' :: (quoted "offset" ++ [':']))))

/-- The snapshot from behind the offset. -/
def blockBack : List Char :=
  (",\"type\":\"sparse_buffer_block\"\x7d,\"handle\":2,\"offset\":0,\"size\":4\x7d]," ++
    "\"handle\":1,\"size\":8\x7d]\x7d").toList

/-- The path to the offset of the block. -/
def blockPath : List Selector :=
  [.member "allocations", .item 0, .member "bindings", .item 0, .member "kind", .member "offset"]

/-- The largest number of 64 bits is kept in a kind, the next one is rejected, and so is a number
with a fraction. -/
theorem parse_literal_at_offset_of_block :
    let snapshot (lit : List Char) : String := String.ofList (blockFront ++ (lit ++ blockBack))
    Format.json.parse (snapshot ['7']) = .ok (oneBlock 7) ∧
      (oneBlock 7).wordAt? blockPath = some (.u64, 7) ∧
      Format.json.parse (snapshot (decimal 18446744073709551615)) =
        .ok (oneBlock 18446744073709551615) ∧
      (∃ fault, Format.json.parse (snapshot (decimal 18446744073709551616)) = .error fault) ∧
      ∃ fault, Format.json.parse (snapshot ['7', '.', '0']) = .error fault := by
  intro snapshot
  have hseven : Numeral.Literal (decimalNumeral 7) ['7'] := Numeral.literal_decimal 7
  have hreal : Numeral.Literal ⟨false, ['7'], some ['0'], none⟩ ['7', '.', '0'] := by
    have hdigits : ∀ c : Char, c.isDigit = true → IsDigits [c] := fun c hc =>
      ⟨by simp, List.forall_mem_singleton.mpr hc⟩
    refine ⟨⟨hdigits '7' rfl, by simp, ?_, nofun⟩, [], .none, rfl⟩
    rintro _ ⟨⟩
    exact hdigits '0' rfl
  have hpost : Numeral.Apart blockBack := apart_of_head (by decide) _
  -- The offset is the first member of the first kind, and so on outwards.
  have hplace : StandsAt blockPath (blockFront ++ (['7'] ++ blockBack)) (['7'] ++ blockBack) := by
    have hopens : Opens ('7' :: blockBack) := ⟨'7', blockBack, rfl, rfl, by decide⟩
    have hbrace : ∀ cs, Opens ('\x7b' :: cs) := fun cs => ⟨'\x7b', cs, rfl, rfl, by decide⟩
    have hmembers := StandsAt.first_member "allocations" <| .first_item (hbrace _) <|
      .first_member "bindings" <| .first_item (hbrace _) <| .first_member "kind" <|
      .first_member "offset" <| .of_opens hopens
    simpa [blockFront, blockPath] using hmembers
  -- The first snapshot is evaluated; the others follow from it.
  have hdecode : decode Breakdown (snapshot ['7']) = .ok (oneBlock 7) := by
    rw [← toOption_eq_some_iff, decode_eq, String.toList_ofList]
    decide +kernel
  have hparse : Format.json.parse (snapshot ['7']) = .ok (oneBlock 7) := by
    rw [Format.parse, hdecode]
    rfl
  have hword : (oneBlock 7).wordAt? blockPath = some (.u64, 7) := rfl
  have hplain (m : Nat) := parse_literal_at hseven (Numeral.literal_decimal m) hpost hplace hparse
    hword
  obtain ⟨-, -, hfraction, -⟩ := parse_literal_at hseven hreal hpost hplace hparse hword
  refine ⟨hparse, hword, ?_, ?_, hfraction (.inr (.inl (by simp)))⟩
  · exact ((hplain _).1 _ (Numeral.plain?_decimalNumeral _) (by decide)).1
  · exact (hplain _).2.1 _ (Numeral.plain?_decimalNumeral _) (by decide)

end Json

end AliasReport

import AliasReport.Number.Digits
import AliasReport.Report.Analysis

/-! # Reports as text

* **`Line`**, **`Line.join`** — text at a depth of indentation; each line ends with a line feed.
* **`Report.text`** — all that is known of each allocation.
* **`Report.aliasText`** — the aliased regions of each allocation alone.

Offsets and sizes are shown in base ten or sixteen as the reader likes; handles are always shown
in base ten and host addresses in base sixteen.
-/

namespace AliasReport

open AliasReport.Number

/-- How a report is shown. -/
structure Rendering where
  /-- Whether the bindings of each allocation are listed. -/
  showBindings : Bool
  /-- Whether offsets and sizes are shown in base sixteen. -/
  hexOffsets : Bool
deriving DecidableEq, Repr

/-- The rendering that a configuration asks for. -/
def Config.rendering (c : Config) : Rendering := ⟨c.showBindings, c.hexOffsets⟩

/-! ## Lines -/

/-- A line of text with its depth of indentation. -/
structure Line where
  depth : Nat
  text : String
deriving DecidableEq, Repr

/-- A line as it is written: four blanks for each step of depth, and a line feed at its end. -/
def Line.chars (l : Line) : List Char :=
  List.replicate (4 * l.depth) ' ' ++ l.text.toList ++ ['\n']

/-- Lines as they are written. -/
def Line.join (ls : List Line) : String :=
  String.ofList (ls.flatMap Line.chars)

/-- An address. -/
def address (n : UInt64) : String :=
  String.ofList (hexadecimal n.toNat)

/-- An offset or a size. -/
def measure (hex : Bool) (n : UInt64) : String :=
  if hex then address n else toString n

/-- Two numbers in round brackets. -/
def pair (x y : UInt32) : String :=
  "(" ++ toString x ++ ", " ++ toString y ++ ")"

/-! ## Parts of a report -/

/-- The aliased regions of an allocation, numbered from `index`. -/
def regionLines (hex : Bool) : (index : Nat) → List Region → List Line
  | _, [] => []
  | index, r :: rs =>
    ⟨1, toString index ++ ":"⟩
      :: ⟨2, "Offset: " ++ measure hex r.offset⟩
      :: ⟨2, "Size:   " ++ measure hex r.size⟩
      :: ⟨2, "Shared by:"⟩
      :: r.sharers.map (fun id => ⟨3, toString id⟩)
      ++ regionLines hex (index + 1) rs

/-- The aliased regions of an allocation under a line that counts them. -/
def aliasLines (hex : Bool) (rs : List Region) : List Line :=
  if rs.isEmpty then [⟨1, "No aliased regions"⟩]
  else ⟨1, toString rs.length ++ " aliased regions:"⟩ :: regionLines hex 0 rs

/-- What is particular to a kind of resource. -/
def ResourceKind.lines (hex : Bool) : ResourceKind → List Line
  | .buffer => []
  | .image => []
  | .sparseImageBlock x y width height level layer aspects =>
    [⟨2, "Block Offset: " ++ pair x y⟩,
      ⟨2, "Block Extent: " ++ pair width height⟩,
      ⟨2, "Mip Level:    " ++ toString level⟩,
      ⟨2, "Array Layer:  " ++ toString layer⟩,
      ⟨2, "Aspects:      " ++ aspectList aspects⟩]
  | .sparseImageMetadata layer offset =>
    [⟨2, "Array Layer:     " ++ toString layer⟩,
      ⟨2, "Mip Tail Offset: " ++ measure hex offset⟩]
  | .sparseImageMipTail layer offset aspects =>
    [⟨2, "Array Layer:     " ++ toString layer⟩,
      ⟨2, "Mip Tail Offset: " ++ measure hex offset⟩,
      ⟨2, "Aspects:         " ++ aspectList aspects⟩]
  | .sparseOpaqueImageBlock offset => [⟨2, "Image Memory Offset: " ++ measure hex offset⟩]
  | .sparseBufferBlock offset => [⟨2, "Buffer Memory Offset: " ++ measure hex offset⟩]

/-- A resource under its kind and name. -/
def Resource.lines (hex : Bool) (r : Resource) : List Line :=
  ⟨1, r.kind.label ++ ": " ++ r.name⟩
    :: ⟨2, "Handle: " ++ toString r.handle⟩
    :: ⟨2, "Offset: " ++ measure hex r.offset⟩
    :: ⟨2, "Size:   " ++ measure hex r.size⟩
    :: r.kind.lines hex

/-- The flags of an allocation, if it has any. -/
def flagLines (flags : List String) : List Line :=
  if flags.isEmpty then [] else ⟨1, "Flags:"⟩ :: flags.map fun flag => ⟨2, flag⟩

/-- The host mapping of an allocation, if it has one. -/
def mappingLines (hex : Bool) : Option HostMapping → List Line
  | none => []
  | some m =>
    [⟨1, "Mapped into host memory at " ++ address m.mappedAddress⟩,
      ⟨2, "Offset: " ++ measure hex m.offset⟩,
      ⟨2, "Size:   " ++ measure hex m.size⟩]

/-- The number of bindings of an allocation and, where they are to be shown, the bindings. -/
def bindingLines (how : Rendering) (a : AllocationReport) : List Line :=
  if how.showBindings then
    ⟨1, toString a.bindingCount ++ " bindings:"⟩ ::
      a.bindings.flatMap (Resource.lines how.hexOffsets)
  else [⟨1, toString a.bindingCount ++ " bindings"⟩]

/-- What is known of an allocation before its bindings. -/
def AllocationReport.headLines (hex : Bool) (a : AllocationReport) : List Line :=
  ⟨0, "Name: " ++ a.name⟩
    :: ⟨1, "Handle:      " ++ toString a.handle⟩
    :: ⟨1, "Device:      " ++ toString a.device⟩
    :: ⟨1, "Memory Type: " ++ toString a.memoryType⟩
    :: ⟨1, "Size:        " ++ measure hex a.size⟩
    :: flagLines a.flags ++ mappingLines hex a.mapping

/-- All that is known of an allocation. -/
def AllocationReport.lines (how : Rendering) (a : AllocationReport) : List Line :=
  a.headLines how.hexOffsets ++ bindingLines how a ++ aliasLines how.hexOffsets a.aliases

/-! ## Reports -/

namespace Report

/-- All that is known of each allocation. -/
def lines (how : Rendering) (r : Report) : List Line :=
  ⟨0, toString r.allocations.length ++ " memory allocations"⟩
    :: r.allocations.flatMap (AllocationReport.lines how)

/-- The text of all that is known of each allocation. -/
def text (how : Rendering) (r : Report) : String :=
  Line.join (r.lines how)

/-- The aliased regions of each allocation. -/
def aliasLines (hex : Bool) (r : Report) : List Line :=
  r.allocations.flatMap fun a =>
    ⟨0, "Allocation " ++ toString a.handle ++ " (" ++ a.name ++ ")"⟩
      :: AliasReport.aliasLines hex a.aliases

/-- The text of the aliased regions of each allocation. -/
def aliasText (hex : Bool) (r : Report) : String :=
  Line.join (r.aliasLines hex)

end Report

end AliasReport

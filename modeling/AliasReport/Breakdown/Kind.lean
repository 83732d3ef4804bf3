import AliasReport.Document.Shape

/-! # Kinds of resources

What a resource that is bound into an allocation is, and the detail that goes with each kind.

* **`Aspect`**, **`aspectList`** — the planes of an image, and their text.
* **`ResourceKind`**, **`ResourceKind.label`** — the kinds, and their names in reports.
* Documents tell the kinds apart by their member `type`.
-/

namespace AliasReport

open AliasReport.Document

/-- A plane of an image. -/
inductive Aspect
  | color
  | depth
  | stencil
deriving DecidableEq, Repr

/-- What kind of resource is bound into an allocation. -/
inductive ResourceKind
  | buffer
  | image
  /-- A block of an image of which only some blocks are bound. -/
  | sparseImageBlock (xOffset yOffset width height mipLevel arrayLayer : UInt32)
      (aspects : List Aspect)
  | sparseImageMetadata (arrayLayer : UInt32) (offset : UInt64)
  | sparseImageMipTail (arrayLayer : UInt32) (offset : UInt64) (aspects : List Aspect)
  | sparseOpaqueImageBlock (offset : UInt64)
  | sparseBufferBlock (offset : UInt64)
deriving DecidableEq, Repr

/-! ## Text -/

/-- The name of an aspect in reports. -/
def Aspect.label : Aspect → String
  | .color => "Color"
  | .depth => "Depth"
  | .stencil => "Stencil"

/-- The names of aspects with commas between them. -/
def aspectList (aspects : List Aspect) : String :=
  ", ".intercalate (aspects.map Aspect.label)

namespace ResourceKind

/-- The name of a kind in reports. -/
def label : ResourceKind → String
  | .buffer => "Buffer"
  | .image => "Image"
  | .sparseImageBlock .. => "Sparse Image Block"
  | .sparseImageMetadata .. => "Sparse Image Metadata"
  | .sparseImageMipTail .. => "Sparse Image Mip Tail"
  | .sparseOpaqueImageBlock .. => "Sparse Opaque Image Block"
  | .sparseBufferBlock .. => "Sparse Buffer Block"

/-- The aspects of the kinds that have them. -/
def aspects? : ResourceKind → Option (List Aspect)
  | .sparseImageBlock _ _ _ _ _ _ aspects => some aspects
  | .sparseImageMipTail _ _ aspects => some aspects
  | _ => none

end ResourceKind

/-! ## Documents -/

instance : Described Aspect where
  shape := .choice "color" ["depth", "stencil"]
  ofVal := [Aspect.color, Aspect.depth, Aspect.stencil].get
  toVal
    | .color => (0 : Fin 3)
    | .depth => (1 : Fin 3)
    | .stencil => (2 : Fin 3)
  ofVal_toVal a := by cases a <;> rfl

namespace ResourceKind

/-- The cases of a kind in documents. -/
abbrev cases : Cases :=
  .cons "buffer" "Buffer" .nil <|
  .cons "image" "Image" .nil <|
  .cons "sparse_image_block" "SparseImageBlock"
    (.required "x_offset" (Described.shape UInt32) <|
      .required "y_offset" (Described.shape UInt32) <|
      .required "width" (Described.shape UInt32) <|
      .required "height" (Described.shape UInt32) <|
      .required "mip_level" (Described.shape UInt32) <|
      .required "array_layer" (Described.shape UInt32) <|
      .defaulted "aspects" (Described.shape (List Aspect)) .nil) <|
  .cons "sparse_image_metadata" "SparseImageMetadata"
    (.required "array_layer" (Described.shape UInt32) <|
      .required "offset" (Described.shape UInt64) .nil) <|
  .cons "sparse_image_mip_tail" "SparseImageMipTail"
    (.required "array_layer" (Described.shape UInt32) <|
      .required "offset" (Described.shape UInt64) <|
      .defaulted "aspects" (Described.shape (List Aspect)) .nil) <|
  .cons "sparse_opaque_image_block" "SparseOpaqueImageBlock"
    (.required "offset" (Described.shape UInt64) .nil) <|
  .cons "sparse_buffer_block" "SparseBufferBlock"
    (.required "offset" (Described.shape UInt64) .nil) .nil

/-- The kind that a document stands for. -/
def ofCase : cases.Val → ResourceKind
  | .inl () => .buffer
  | .inr (.inl ()) => .image
  | .inr (.inr (.inl (x, y, width, height, level, layer, aspects, ()))) =>
    .sparseImageBlock x y width height level layer (Described.ofVal aspects)
  | .inr (.inr (.inr (.inl (layer, offset, ())))) => .sparseImageMetadata layer offset
  | .inr (.inr (.inr (.inr (.inl (layer, offset, aspects, ()))))) =>
    .sparseImageMipTail layer offset (Described.ofVal aspects)
  | .inr (.inr (.inr (.inr (.inr (.inl (offset, ())))))) => .sparseOpaqueImageBlock offset
  | .inr (.inr (.inr (.inr (.inr (.inr (.inl (offset, ()))))))) => .sparseBufferBlock offset

/-- The document of a kind. -/
def toCase : ResourceKind → cases.Val
  | .buffer => .inl ()
  | .image => .inr (.inl ())
  | .sparseImageBlock x y width height level layer aspects =>
    .inr (.inr (.inl (x, y, width, height, level, layer, Described.toVal aspects, ())))
  | .sparseImageMetadata layer offset => .inr (.inr (.inr (.inl (layer, offset, ()))))
  | .sparseImageMipTail layer offset aspects =>
    .inr (.inr (.inr (.inr (.inl (layer, offset, Described.toVal aspects, ())))))
  | .sparseOpaqueImageBlock offset => .inr (.inr (.inr (.inr (.inr (.inl (offset, ()))))))
  | .sparseBufferBlock offset => .inr (.inr (.inr (.inr (.inr (.inr (.inl (offset, ())))))))

/-- A kind is what its case in the shape stands for. -/
theorem ofCase_toCase (k : ResourceKind) : ofCase (toCase k) = k := by
  cases k <;> simp [toCase, ofCase]

end ResourceKind

instance : Described ResourceKind where
  shape := .union "BindingKind" "type" ResourceKind.cases
  ofVal := ResourceKind.ofCase
  toVal := ResourceKind.toCase
  ofVal_toVal := ResourceKind.ofCase_toCase

end AliasReport

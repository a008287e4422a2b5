import Mathlib.Data.List.Forall2
import AltairRs.Compress.Tar
import AltairRs.Data.Codec
import AltairRs.Data.Forest
import AltairRs.Unix.ModeDisk
import AltairRs.Unix.PathText

/-!
# Archives of a tree

The `tar` and `flate2` crates as structures: what is relied on is that a reader finds what was
recorded of a tree, and a decoder what was encoded. `append_dir_all` records every path once,
a directory before what is in it, in an order of its own; a file with holes may be recorded as
sparse. A crate with records of its own making, and one that compresses nothing, are two that
keep these laws.
-/

namespace AltairRs.Compress

open Data Effect Unix

/-- A directory's content: directories with their modes, and regular files, whose sizes are
`u64`s. -/
structure Tree where
  forest : Forest String (List UInt8)
  distinct : forest.Distinct
  areNames : ∀ name ∈ forest.allNames, IsFileName name
  small : ∀ content ∈ forest.contents, content.length < 2 ^ 64
  mode : List String → Nat := fun _ => newDirectoryMode

/-- The bytes of all files. -/
def Tree.size (tree : Tree) : Nat := (tree.forest.contents.map List.length).sum

/-- What is recorded of a path, by the modes of the directories. -/
structure Records (mode : List String → Nat) (path : List String × Option (List UInt8))
    (entry : TarEntry) : Prop where
  isPath : entry.path = .ok (named path.1)
  isKind : match path.2 with
    | none => entry.entryType = .directory
    | some content =>
        (entry.entryType = .regular ∨ entry.entryType = .gnuSparse) ∧ entry.data = content
  isMode : path.2 = none → entry.mode = .ok (mode path.1)

/-- The `tar` crate: the bytes of `append_dir_all` and `finish`, and what an `Archive`
reads. The reader finds what was recorded. -/
structure TarCrate where
  pack : Tree → List UInt8
  read : List UInt8 → Archive
  read_pack : ∀ tree, ∃ visited entries, visited.Perm (tree.forest.entries []) ∧
    Forest.Rooted [[]] [] visited ∧ read (pack tree) = .ok (entries.map .ok) ∧
    List.Forall₂ (Records tree.mode) visited entries

/-- The `flate2` crate: what an encoder writes while it is fed and when it is dropped,
and what a decoder reads. -/
structure FlateCrate where
  encode : List UInt8 → List UInt8 × List UInt8
  decode : List UInt8 → Except IoError (List UInt8)
  decode_encode : ∀ bytes, decode ((encode bytes).1 ++ (encode bytes).2) = .ok bytes

/-- What is read of a compressed archive. -/
def FlateCrate.read (flate : FlateCrate) (tar : TarCrate) (file : List UInt8) : Archive := do
  let bytes ← flate.decode file
  tar.read bytes

/-- What a crate of its own making writes of a path: its names, its mode, and its content
if it is a file. -/
abbrev TarItem := List String × Nat × Option (List UInt8)

/-- The items of a tree, in the order of its listing. -/
def Tree.items (tree : Tree) : List TarItem :=
  (tree.forest.entries []).map fun path => (path.1, tree.mode path.1, path.2)

/-- What can be recorded of a content. -/
def recordable (content : List UInt8) : List UInt8 := content.take UInt64.size.pred

/-- Its size is a `u64`. -/
theorem length_recordable_lt (content : List UInt8) : (recordable content).length < 2 ^ 64 :=
  Nat.lt_of_le_of_lt (List.length_take_le ..) (by decide)

/-- The entry that is read for an item; what is too large for a `u64` is cut. -/
def TarItem.entry : TarItem → TarEntry
  | (names, mode, none) => { TarEntry.bare .directory (named names) with mode := .ok mode }
  | (names, mode, some content) =>
      { entryType := .regular
        path := .ok (named names)
        mode := .ok mode
        data := recordable content
        size_lt := length_recordable_lt content }

/-- The items as bytes. -/
def tarItems : Codec (List TarItem) :=
  (Codec.string.list.pair (Codec.nat.pair Codec.byte.list.option)).list

/-- The entry of an item is a record of its path. -/
theorem TarItem.records {mode : List String → Nat} {names : List String}
    {kind : Option (List UInt8)} (small : ∀ content ∈ kind, content.length < 2 ^ 64) :
    Records mode (names, kind) (TarItem.entry (names, mode names, kind)) := by
  cases kind with
  | none => exact ⟨rfl, rfl, fun _ => rfl⟩
  | some content =>
      have isSmall : content.length < 2 ^ 64 := small content rfl
      have isWhole : recordable content = content :=
        List.take_of_length_le (Nat.le_pred_of_lt isSmall)
      exact ⟨rfl, ⟨.inl rfl, isWhole⟩, nofun⟩

/-- An archive of items, if these are. -/
def readItems (bytes : List UInt8) : Archive :=
  match tarItems.read bytes with
  | none => .error ⟨"failed to read entire block"⟩
  | some (items, _) => .ok ((items.map TarItem.entry).map .ok)

/-- The items that were written are read. -/
theorem readItems_write (items : List TarItem) :
    readItems (tarItems.write items) = .ok ((items.map TarItem.entry).map .ok) := by
  have isRead := tarItems.read_write items []
  rw [List.append_nil] at isRead
  rw [readItems, isRead]

/-- The crate that writes the items of the listing, one after the other. -/
def TarCrate.listing : TarCrate where
  pack tree := tarItems.write tree.items
  read := readItems
  read_pack tree := by
    refine ⟨_, tree.items.map TarItem.entry, .refl _, Forest.rooted_entries tree.distinct,
      readItems_write tree.items, ?_⟩
    rw [Tree.items, List.map_map, List.forall₂_map_right_iff, List.forall₂_same]
    rintro ⟨names, kind⟩ member
    refine TarItem.records fun content isKind => tree.small content ?_
    rw [← Forest.filterMap_entries tree.forest []]
    exact List.mem_filterMap.mpr ⟨_, member, isKind⟩

/-- The crate that compresses nothing: the magic number, what it was fed, and a trailer of
eight bytes. -/
def FlateCrate.stored : FlateCrate where
  encode bytes := (0x1f :: 0x8b :: bytes, List.replicate 8 0)
  decode
    | 0x1f :: 0x8b :: rest =>
        if 8 ≤ rest.length then .ok (rest.take (rest.length - 8))
        else .error ⟨"corrupt gzip stream does not have a matching checksum"⟩
    | _ => .error ⟨"invalid gzip header"⟩
  decode_encode bytes := by simp

end AltairRs.Compress

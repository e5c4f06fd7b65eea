import FlatApi.Spelling

/-!
# Which C type stands for a native type

A table from native types, up to the white space in their spelling, to the C types that stand for
them at the flat boundary.  A type without an entry cannot cross the boundary.
-/

namespace FlatApi

namespace TypeTable

/-- The list with the value of a key set; a new key comes last. -/
def set (key value : String) : List (String × String) → List (String × String)
  | [] => [(key, value)]
  | (k, v) :: rest => if k = key then (k, value) :: rest else (k, v) :: set key value rest

section Set

variable {key value : String} {entries : List (String × String)}

/-- Setting a value adds its key and removes none. -/
theorem mem_keys_set {k : String} :
    k ∈ (set key value entries).map Prod.fst ↔ k = key ∨ k ∈ entries.map Prod.fst := by
  fun_induction set key value entries with
  | case1 => exact List.mem_cons
  | case2 v rest =>
    rw [List.map_cons, List.map_cons, List.mem_cons, or_self_left]
  | case3 k' v rest hne ih =>
    rw [List.map_cons, List.map_cons, List.mem_cons, List.mem_cons, ih]
    exact or_left_comm

/-- Keys that are all different stay so. -/
theorem nodup_keys_set (h : (entries.map Prod.fst).Nodup) :
    ((set key value entries).map Prod.fst).Nodup := by
  fun_induction set key value entries with
  | case1 => exact List.pairwise_singleton _ key
  | case2 v rest => exact h
  | case3 k' v rest hne ih =>
    obtain ⟨hk', hrest⟩ := List.nodup_cons.mp h
    refine List.nodup_cons.mpr ⟨fun hmem => ?_, ih hrest⟩
    rcases mem_keys_set.mp hmem with heq | hmem
    · exact hne heq
    · exact hk' hmem

end Set

theorem normal_nil : ∀ key ∈ ([] : List (String × String)).map Prod.fst,
    ∃ native, key = Spelling.normalize native := nofun

end TypeTable

/-- The entries are for different types, each in its normal spelling, and keep the order in which
they came. -/
@[ext]
structure TypeTable where
  entries : List (String × String) := []
  nodup : (entries.map Prod.fst).Nodup := by exact List.nodup_nil
  normal : ∀ key ∈ entries.map Prod.fst, ∃ native, key = Spelling.normalize native := by
    exact TypeTable.normal_nil

namespace TypeTable

/-- Adds an entry, or replaces the one for another spelling of the type. -/
def insert (t : TypeTable) (native cType : String) : TypeTable where
  entries := set (Spelling.normalize native) cType t.entries
  nodup := nodup_keys_set t.nodup
  normal := by
    intro key hkey
    rcases mem_keys_set.mp hkey with rfl | hkey
    · exact ⟨native, rfl⟩
    · exact t.normal key hkey

/-- The C type for a native type. -/
def lookup (t : TypeTable) (native : String) : Option String :=
  t.entries.lookup (Spelling.normalize native)

def size (t : TypeTable) : Nat := t.entries.length

def isEmpty (t : TypeTable) : Bool := t.entries.isEmpty

def insertAll (t : TypeTable) (pairs : List (String × String)) : TypeTable :=
  pairs.foldl (fun t (native, cType) => t.insert native cType) t

/-- Types that are C types already. -/
def builtinTypes : List String :=
  ["void", "bool", "char", "signed char", "unsigned char", "short", "unsigned short", "int",
    "unsigned", "unsigned int", "long", "unsigned long", "long long", "unsigned long long",
    "float", "double", "size_t", "int8_t", "int16_t", "int32_t", "int64_t", "uint8_t", "uint16_t",
    "uint32_t", "uint64_t", "void*", "const char*"]

/-- The table of the types that stand for themselves. -/
def builtins : TypeTable := ({} : TypeTable).insertAll (builtinTypes.map fun t => (t, t))

end TypeTable

/-- One entry of a file of type mappings. -/
structure TypeEntry where
  native : String
  cType : String
  deriving DecidableEq

structure TypeFile where
  types : List TypeEntry := []
  deriving DecidableEq

/-- The builtin types, and on top of them the entries of a file. -/
def TypeTable.ofFile (f : TypeFile) : TypeTable :=
  builtins.insertAll (f.types.map fun e => (e.native, e.cType))

end FlatApi

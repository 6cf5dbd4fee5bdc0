import QkPack.Lib.Double

/-!
# JSON trees as a C library gives them

The tree of a parsed text and the look-up of a member of an object by its name and type. Names and strings
are C strings to those who read them.
-/

namespace Json
open Wire CString

inductive Tree where
  | null
  | boolean (b : Bool)
  | number (d : Double)
  | string (s : Bytes)
  | array (values : List Tree)
  | object (members : List (Bytes × Tree))

namespace Tree

def get (name : String) : Tree → Option Tree
  | .object members => (members.find? fun member => cStr member.1 = text name).map (·.2)
  | _ => none

/-- The member if it is a string, as it is read through a pointer. -/
def getString (name : String) (node : Tree) : Option Bytes :=
  match node.get name with
  | some (.string s) => some (cStr s)
  | _ => none

def getNumber (name : String) (node : Tree) : Option Double :=
  match node.get name with
  | some (.number d) => some d
  | _ => none

def getArray (name : String) (node : Tree) : Option (List Tree) :=
  match node.get name with
  | some (.array values) => some values
  | _ => none

def getObject (name : String) (node : Tree) : Option (List (Bytes × Tree)) :=
  match node.get name with
  | some (.object members) => some members
  | _ => none

/-- Whether the member is there and is `true`. -/
def getTrue (name : String) (node : Tree) : Bool :=
  match node.get name with
  | some (.boolean b) => b
  | _ => false

section Size

mutual

/-- A text of the tree has at least so many bytes. -/
def size : Tree → Nat
  | .string s => s.length + 1
  | .array values => sizeAll values + 1
  | .object members => sizeMembers members + 1
  | _ => 1

def sizeAll : List Tree → Nat
  | [] => 0
  | value :: values => value.size + sizeAll values

def sizeMembers : List (Bytes × Tree) → Nat
  | [] => 0
  | (name,value) :: members => name.length + value.size + sizeMembers members

end

variable {node value : Tree} {values : List Tree}

theorem size_pos (node : Tree) : 0 < node.size := by
  cases node <;> simp [size]

theorem size_le_sizeAll (h : value ∈ values) : value.size ≤ sizeAll values := by
  induction h with
  | head values => exact Nat.le_add_right _ _
  | tail other _ ih => exact ih.trans (Nat.le_add_left _ _)

theorem length_le_sizeAll (values : List Tree) : values.length ≤ sizeAll values := by
  induction values with
  | nil => exact le_rfl
  | cons value values ih =>
    have hpos := size_pos value
    rw [List.length_cons, sizeAll]
    omega

theorem size_le_sizeMembers {members : List (Bytes × Tree)} {member : Bytes × Tree} (h : member ∈ members) :
    member.2.size ≤ sizeMembers members := by
  induction h with
  | head members =>
    rw [sizeMembers]
    omega
  | tail other _ ih =>
    rw [sizeMembers]
    omega

theorem size_get {name : String} (h : node.get name = some value) : value.size < node.size := by
  unfold get at h
  split at h
  · obtain ⟨member,hfind,rfl⟩ := Option.map_eq_some_iff.mp h
    rw [size]
    exact Nat.lt_succ_of_le (size_le_sizeMembers (List.mem_of_find?_eq_some hfind))
  · cases h

theorem size_getString {name : String} {s : Bytes} (h : node.getString name = some s) :
    s.length < node.size := by
  unfold getString at h
  split at h
  · rename_i t hget
    cases h
    have hlt := size_get hget
    have hle : (cStr t).length ≤ t.length := (List.takeWhile_sublist _).length_le
    rw [size] at hlt
    omega
  · cases h

theorem size_getArray {name : String} (h : node.getArray name = some values) :
    sizeAll values < node.size := by
  unfold getArray at h
  split at h
  · rename_i vs hget
    cases h
    have hlt := size_get hget
    rw [size] at hlt
    omega
  · cases h

end Size

end Tree

end Json

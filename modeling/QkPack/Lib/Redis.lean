import Mathlib.Data.List.Sort
import QkPack.Lib.Double
import QkPack.Lib.RespParse

/-!
# A server for strings and sorted sets

The few commands of Redis that matter here, over one flat key space. A key holds a string or a sorted
set, and the seconds it is kept for. A command that is answered with an error has no result.
-/

namespace Redis
open Wire CString Resp

/-- What a key holds; the members of a sorted set stand in the order of their scores. -/
inductive Value where
  | string (s : Bulk)
  | zset (members : List (Bulk × Double))

structure Entry where
  value : Value
  expire : Option Int

abbrev Store := Bytes → Option Entry

/-- How the server reads and writes floating point numbers. -/
structure Numbers where
  read : Bytes → Option Double
  shown : Double → Bulk

def readNat (s : Bytes) : Option Nat :=
  if !s.isEmpty && s.all (fun c => decide (IsDigit c)) then some (digitsValue s) else none

def readInt : Bytes → Option Int
  | 45 :: s => (readNat s).map fun n => -Int.ofNat n
  | s => (readNat s).map Int.ofNat

def bulk? (s : Bytes) : Option Bulk :=
  if h : s.length ≤ 512 * 1024 * 1024 then some ⟨s,h⟩ else none

section Strings

/-- `SET key value EX seconds`, whatever the key has held before. -/
def set (key value seconds : Bytes) (store : Store) : Option Store := do
  let n ← readInt seconds
  let s ← bulk? value
  if 0 < n then return Function.update store key (some ⟨.string s,some n⟩) else none

/-- The element of `MGET` for a key. -/
def mgetElem (store : Store) (key : Bytes) : Elem :=
  match store key with
  | some ⟨.string s,_⟩ => some s
  | _ => none

/-- `EXPIRE key seconds`. -/
def expire (key seconds : Bytes) (store : Store) : Option Store := do
  let n ← readInt seconds
  match store key with
  | none => return store
  | some entry =>
    return Function.update store key (if 0 < n then some { entry with expire := some n } else none)

end Strings

section SortedSets

def members (store : Store) (key : Bytes) : Option (List (Bulk × Double)) :=
  match store key with
  | none => some []
  | some ⟨.zset z,_⟩ => some z
  | some ⟨.string _,_⟩ => none

def putMembers (store : Store) (key : Bytes) (z : List (Bulk × Double)) : Store :=
  Function.update store key
    (if z = [] then none else some ⟨.zset z,(store key).bind Entry.expire⟩)

/-- Scores first, and the bytes of the members between equal scores. -/
def Below (a b : Bulk × Double) : Prop :=
  a.2 < b.2 ∨ a.2 = b.2 ∧ a.1.bytes < b.1.bytes

instance : DecidableRel Below := fun _ _ => inferInstanceAs (Decidable (_ ∨ _))

def place (m : Bulk × Double) (z : List (Bulk × Double)) : List (Bulk × Double) :=
  (z.filter fun x => x.1.bytes ≠ m.1.bytes).orderedInsert Below m

/-- `ZADD key score member`. -/
def zadd (numbers : Numbers) (key score member : Bytes) (store : Store) : Option Store := do
  let d ← numbers.read score
  let m ← bulk? member
  let z ← members store key
  return putMembers store key (place (m,d) z)

def rangeByScore (lo hi : Double) (z : List (Bulk × Double)) : List (Bulk × Double) :=
  z.filter fun m => lo ≤ m.2 ∧ m.2 ≤ hi

def rangeByRank (start stop : Int) (z : List (Bulk × Double)) : List (Bulk × Double) :=
  let fromEnd (rank : Int) := if rank < 0 then rank + z.length else rank
  (z.take (fromEnd stop + 1).toNat).drop (fromEnd start).toNat

/-- The members a query asks for; the descending ones begin with the highest. -/
def select (numbers : Numbers) (name lo hi : Bytes) (z : List (Bulk × Double)) :
    Option (List (Bulk × Double)) :=
  if name = text "ZRANGEBYSCORE" then
    return rangeByScore (← numbers.read lo) (← numbers.read hi) z
  else if name = text "ZREVRANGEBYSCORE" then
    return (rangeByScore (← numbers.read hi) (← numbers.read lo) z).reverse
  else if name = text "ZRANGE" then return rangeByRank (← readInt lo) (← readInt hi) z
  else if name = text "ZREVRANGE" then return rangeByRank (← readInt lo) (← readInt hi) z.reverse
  else none

def rangeBulks (numbers : Numbers) (scored : Bool) (z : List (Bulk × Double)) : List Bulk :=
  z.flatMap fun m => m.1 :: if scored then [numbers.shown m.2] else []

def withScores : List Bytes → Option Bool
  | [] => some false
  | [option] => if option = text "WITHSCORES" then some true else none
  | _ => none

end SortedSets

abbrev LuaScript := List Bytes → List Bytes → Store → Option (Store × Reply)

structure Node where
  numbers : Numbers
  scripts : Bytes → Option LuaScript

section Exec

variable (node : Node) (store : Store)

def Node.selection : List Bytes → Option (List (Bulk × Double))
  | name :: key :: lo :: hi :: _ => (members store key).bind (select node.numbers name lo hi)
  | _ => none

/-- `EVALSHA sha numkeys key … arg …`. -/
def Node.evalsha : List Bytes → Option (Store × Reply)
  | sha :: numkeys :: args => do
    let script ← node.scripts sha
    let n ← readNat numkeys
    if n ≤ args.length then script (args.take n) (args.drop n) store else none
  | _ => none

def Node.exec : List Bytes → Option (Store × Reply)
  | [] => none
  | name :: args =>
    if name = text "MGET" then some (store,.array (args.map (mgetElem store)))
    else if name = text "EVALSHA" then node.evalsha store args
    else do
      let z ← node.selection store (name :: args)
      let scored ← withScores (args.drop 3)
      return (store,.array ((rangeBulks node.numbers scored z).map some))

end Exec

section Read

theorem readNat_decimal (n : Nat) : readNat (decimal n) = some n := by
  have hempty : (decimal n).isEmpty = false := List.isEmpty_eq_false_iff.mpr (decimal_ne_nil n)
  have hdigits : (decimal n).all (fun c => decide (IsDigit c)) = true := by
    rw [List.all_eq_true]
    intro c hc
    exact decide_eq_true (decimal_isDigit hc)
  rw [readNat, hempty, hdigits, digitsValue_decimal]
  rfl

theorem readInt_intText (n : Int) : readInt (intText n) = some n := by
  rw [intText]
  split
  · rw [readInt, readNat_decimal, Option.map_some, Option.some.injEq, Int.ofNat_eq_natCast]
    omega
  · have hminus (s : Bytes) : decimal n.natAbs ≠ 45 :: s := by
      intro hs
      have hdigit := decimal_isDigit (n := n.natAbs) (c := 45) (hs ▸ List.mem_cons_self)
      revert hdigit
      decide
    rw [readInt, readNat_decimal, Option.map_some, Option.some.injEq, Int.ofNat_eq_natCast]
    · omega
    · exact hminus

end Read

theorem rangeBulks_length (numbers : Numbers) (scored : Bool) (z : List (Bulk × Double)) :
    (rangeBulks numbers scored z).length = if scored then 2 * z.length else z.length := by
  induction z with
  | nil => cases scored <;> rfl
  | cons m z ih =>
    rw [rangeBulks, List.flatMap_cons, List.length_append]
    apply (congrArg _ ih).trans
    cases scored with
    | false => simp [Nat.add_comm]
    | true =>
      simp only [if_true, List.length_cons, List.length_nil]
      omega

theorem Node.exec_range {node : Node} {store : Store} {name key lo hi : Bytes} {opts : List Bytes}
    {z : List (Bulk × Double)} {scored : Bool} (hmget : name ≠ text "MGET")
    (hevalsha : name ≠ text "EVALSHA") (hz : node.selection store (name :: key :: lo :: hi :: opts) = some z)
    (hopts : withScores opts = some scored) :
    node.exec store (name :: key :: lo :: hi :: opts) =
      some (store,.array ((rangeBulks node.numbers scored z).map some)) := by
  rw [Node.exec, if_neg hmget, if_neg hevalsha, hz]
  simp [hopts]

section Members

variable {key other : Bytes} {z : List (Bulk × Double)} {store : Store}

theorem place_eq {m : Bulk × Double} (hnew : m.1.bytes ∉ z.map (·.1.bytes)) :
    place m z = z.orderedInsert Below m := by
  have hfilter : (z.filter fun x => x.1.bytes ≠ m.1.bytes) = z := by
    rw [List.filter_eq_self]
    intro x hx
    apply decide_eq_true
    intro hsame
    exact hnew (hsame ▸ List.mem_map_of_mem hx)
  rw [place, hfilter]

theorem place_perm {m : Bulk × Double} (hnew : m.1.bytes ∉ z.map (·.1.bytes)) :
    (place m z).Perm (m :: z) := by
  rw [place_eq hnew]
  exact List.perm_orderedInsert Below m z

theorem members_putMembers : members (putMembers store key z) key = some z := by
  unfold members putMembers
  rw [Function.update_self]
  split
  · rename_i hnone
    split at hnone
    · rename_i hz
      rw [hz]
    · cases hnone
  · rename_i hsome
    split at hsome
    · cases hsome
    · cases hsome
      rfl
  · rename_i hsome
    split at hsome
    · cases hsome
    · cases hsome

theorem putMembers_other (hother : other ≠ key) : putMembers store key z other = store other :=
  Function.update_of_ne hother _ _

theorem expire_some {seconds : Bytes} {store' : Store} (h : expire key seconds store = some store') :
    ∃ n, readInt seconds = some n ∧ (0 < n → members store' key = members store key) ∧
      ∀ other, other ≠ key → store' other = store other := by
  unfold expire at h
  obtain ⟨n,hn,h⟩ := Option.bind_eq_some_iff.mp h
  refine ⟨n,hn,?_⟩
  split at h
  · obtain rfl := Option.some.inj h
    exact ⟨fun _ => rfl,fun _ _ => rfl⟩
  · rename_i entry hentry
    obtain rfl := Option.some.inj h
    constructor
    · intro hpos
      obtain ⟨value,old⟩ := entry
      unfold members
      rw [Function.update_self, if_pos hpos, hentry]
      cases value <;> rfl
    · intro other hne
      exact Function.update_of_ne hne _ _

theorem exists_expire {seconds : Bytes} {n : Int} (hseconds : readInt seconds = some n)
    (hz : members store key = some z) :
    ∃ store', expire key seconds store = some store' ∧ members store' key = some (if 0 < n then z else []) ∧
      ∀ other, other ≠ key → store' other = store other := by
  unfold expire
  rw [hseconds, Option.bind_eq_bind, Option.bind_some]
  cases hentry : store key with
  | none =>
    have hnone : members store key = some [] := by rw [members, hentry]
    cases hz.symm.trans hnone
    exact ⟨store,rfl,by rw [hnone, ite_self],fun _ _ => rfl⟩
  | some entry =>
    refine ⟨_,rfl,?_,fun other hne => Function.update_of_ne hne _ _⟩
    unfold members at hz ⊢
    rw [hentry] at hz
    rw [Function.update_self]
    obtain ⟨value,old⟩ := entry
    by_cases hkept : 0 < n
    · rw [if_pos hkept, if_pos hkept]
      cases value with
      | string s => cases hz
      | zset z' => exact hz
    · rw [if_neg hkept, if_neg hkept]

end Members

section SetAll

variable {seconds key : Bytes} {ps : List (Bytes × Bytes)} {s s' t t' store : Store}

/-- `SET` for one pair after the other, all with the same expiry. -/
def setAll (seconds : Bytes) (ps : List (Bytes × Bytes)) (store : Store) : Option Store :=
  ps.foldlM (fun store p => set p.1 p.2 seconds store) store

/-- What `SET` leaves under its key. -/
def setEntry (value seconds : Bytes) : Option Entry := do
  let n ← readInt seconds
  let s ← bulk? value
  if 0 < n then return ⟨.string s,some n⟩ else none

theorem set_eq (key value seconds : Bytes) (store : Store) :
    set key value seconds store =
      (setEntry value seconds).map fun entry => Function.update store key (some entry) := by
  unfold set setEntry
  cases readInt seconds with
  | none => rfl
  | some n =>
    cases bulk? value with
    | none => rfl
    | some s =>
      simp only [Option.bind_eq_bind, Option.bind_some]
      split <;> rfl

theorem setEntry_some {value : Bytes} {entry : Entry} (h : setEntry value seconds = some entry) :
    ∃ n b, readInt seconds = some n ∧ 0 < n ∧ bulk? value = some b ∧ entry = ⟨.string b,some n⟩ := by
  obtain ⟨n,hn,h⟩ := Option.bind_eq_some_iff.mp h
  obtain ⟨b,hb,h⟩ := Option.bind_eq_some_iff.mp h
  split at h
  · rename_i hpos
    exact ⟨n,b,hn,hpos,hb,(Option.some.inj h).symm⟩
  · cases h

theorem setAll_cons {p : Bytes × Bytes} :
    setAll seconds (p :: ps) s = some s' ↔
      ∃ entry, setEntry p.2 seconds = some entry ∧
        setAll seconds ps (Function.update s p.1 (some entry)) = some s' := by
  rw [setAll, List.foldlM_cons, set_eq, Option.bind_eq_bind, Option.bind_eq_some_iff]
  constructor
  · rintro ⟨s₁,hs₁,hrest⟩
    obtain ⟨entry,hentry,rfl⟩ := Option.map_eq_some_iff.mp hs₁
    exact ⟨entry,hentry,hrest⟩
  · rintro ⟨entry,hentry,hrest⟩
    exact ⟨_,Option.map_eq_some_iff.mpr ⟨entry,hentry,rfl⟩,hrest⟩

theorem setAll_isSome_iff :
    (∃ s', setAll seconds ps s = some s') ↔ ∀ p ∈ ps, ∃ entry, setEntry p.2 seconds = some entry := by
  induction ps generalizing s with
  | nil => exact ⟨fun _ => List.forall_mem_nil _,fun _ => ⟨s,rfl⟩⟩
  | cons p ps ih =>
    simp only [setAll_cons, List.forall_mem_cons]
    constructor
    · rintro ⟨s',entry,hentry,hrest⟩
      exact ⟨⟨entry,hentry⟩,ih.mp ⟨s',hrest⟩⟩
    · rintro ⟨⟨entry,hentry⟩,hrest⟩
      obtain ⟨s',hs'⟩ := ih.mpr hrest
      exact ⟨s',entry,hentry,hs'⟩

theorem setAll_other (hs : setAll seconds ps s = some s') (hkey : key ∉ ps.map (·.1)) : s' key = s key := by
  induction ps generalizing s with
  | nil =>
    cases hs
    rfl
  | cons p ps ih =>
    obtain ⟨entry,-,hrest⟩ := setAll_cons.mp hs
    rw [List.map_cons, List.mem_cons, not_or] at hkey
    rw [ih hrest hkey.2, Function.update_of_ne hkey.1]

theorem setAll_get (hs : setAll seconds ps s = some s') (hnodup : (ps.map (·.1)).Nodup) {p : Bytes × Bytes}
    (hp : p ∈ ps) : ∃ entry, setEntry p.2 seconds = some entry ∧ s' p.1 = some entry := by
  induction ps generalizing s with
  | nil => cases hp
  | cons q ps ih =>
    obtain ⟨entry,hentry,hrest⟩ := setAll_cons.mp hs
    obtain ⟨hnot,hnodup⟩ := List.nodup_cons.mp hnodup
    rcases List.mem_cons.mp hp with rfl | hp
    · refine ⟨entry,hentry,?_⟩
      rw [setAll_other hrest hnot, Function.update_self]
    · exact ih hrest hnodup hp

theorem setAll_filter (keep : Bytes → Bool) (hkeep : keep key = true)
    (hs : setAll seconds ps s = some s')
    (ht : setAll seconds (ps.filter fun p => keep p.1) t = some t')
    (hkey : key ∈ ps.map (·.1) ∨ s key = t key) : s' key = t' key := by
  induction ps generalizing s t with
  | nil =>
    cases hs
    cases ht
    exact hkey.resolve_left (List.not_mem_nil)
  | cons p ps ih =>
    obtain ⟨entry,hentry,hs⟩ := setAll_cons.mp hs
    by_cases hp : p.1 = key
    · rw [List.filter_cons_of_pos (by simpa [hp] using hkeep)] at ht
      obtain ⟨entry',hentry',ht⟩ := setAll_cons.mp ht
      cases hentry.symm.trans hentry'
      apply ih hs ht
      right
      rw [hp, Function.update_self, Function.update_self]
    · have hlater : key ∈ ps.map (·.1) ∨ s key = t key := by
        rw [List.map_cons, List.mem_cons, or_assoc] at hkey
        exact hkey.resolve_left (Ne.symm hp)
      by_cases hkept : keep p.1 = true
      · rw [List.filter_cons_of_pos (by simpa using hkept)] at ht
        obtain ⟨entry',-,ht⟩ := setAll_cons.mp ht
        apply ih hs ht
        rw [Function.update_of_ne (Ne.symm hp), Function.update_of_ne (Ne.symm hp)]
        exact hlater
      · rw [List.filter_cons_of_neg (by simpa using hkept)] at ht
        apply ih hs ht
        rw [Function.update_of_ne (Ne.symm hp)]
        exact hlater

/-- Pairs that are set class by class, in any order of the classes, are set as if one after the other. -/
theorem setAll_of_classes {γ : Type} [DecidableEq γ] (c : Bytes → γ)
    (hclass : ∀ p ∈ ps, ∃ t t', setAll seconds (ps.filter fun q => c q.1 = c p.1) t = some t' ∧
      ∀ key, c key = c p.1 → key ∈ ps.map (·.1) → s' key = t' key)
    (hother : ∀ key, key ∉ ps.map (·.1) → s' key = s key) : setAll seconds ps s = some s' := by
  have hsome : ∃ s₁, setAll seconds ps s = some s₁ := by
    rw [setAll_isSome_iff]
    intro p hp
    obtain ⟨t,t',ht,-⟩ := hclass p hp
    exact setAll_isSome_iff.mp ⟨t',ht⟩ p (List.mem_filter.mpr ⟨hp,by simp⟩)
  obtain ⟨s₁,hs₁⟩ := hsome
  rw [hs₁]
  congr 1
  funext key
  by_cases hkey : key ∈ ps.map (·.1)
  · obtain ⟨p,hp,rfl⟩ := List.mem_map.mp hkey
    obtain ⟨t,t',ht,hsame⟩ := hclass p hp
    rw [hsame p.1 rfl hkey]
    exact setAll_filter (fun k => c k = c p.1) (by simp) hs₁ ht (.inl hkey)
  · rw [setAll_other hs₁ hkey, hother key hkey]

end SetAll

end Redis

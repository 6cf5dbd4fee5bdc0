import QkPack.Lib.KeyServer
import QkPack.Protocol.StoredValue

/-!
# What tenants are promised

Every tenant, known by its namespace, has a store of its own, in which a key holds a value or a set of members. This is
the meaning of the commands on single keys; how it is kept in one key space is the subject of `QkPack.Core.Service`.
-/

namespace QkPack
open Wire CString Resp

inductive Held where
  | value (v : Bytes)
  | members (s : Finset Bytes)
deriving DecidableEq

abbrev TenantStore := Bytes → Bytes → Option Held

/-- The commands on a single key but `TTL`, with the values a client can send. -/
inductive TenantCommand where
  | get
  | set (v : Value)
  | del
  | incrBy (n : Int)
  | sadd (vs : List Value)
  | srem (vs : List Value)
  | scard
  | smembers
  | sismember (v : Value)

inductive Answer where
  | value (v : Option Bytes)
  | stored
  | count (n : Int)
  | members (s : Finset Bytes)
  | test (b : Bool)
  | refused
deriving DecidableEq

def bytesOf (vs : List Value) : Finset Bytes := (vs.map (·.bytes)).toFinset

def heldSet : Option Held → Option (Finset Bytes)
  | none => some ∅
  | some (.members s) => some s
  | some (.value _) => none

def holdSet (s : Finset Bytes) : Option Held := if s = ∅ then none else some (.members s)

def heldNumber : Option Held → Option Int
  | none => some 0
  | some (.value v) => KeyServer.readNumber v
  | some (.members _) => none

def onSet (held : Option Held) (f : Finset Bytes → Answer × Option Held) : Answer × Option Held :=
  match heldSet held with
  | none => (.refused,held)
  | some s => f s

/-- The answer to a command, and what the key then holds. -/
def TenantCommand.apply (held : Option Held) : TenantCommand → Answer × Option Held
  | .get =>
    match held with
    | none => (.value none,held)
    | some (.value v) => (.value (some v),held)
    | some (.members _) => (.refused,held)
  | .set v => (.stored,some (.value v.bytes))
  | .del => (.count (if held.isSome then 1 else 0),none)
  | .incrBy n =>
    match heldNumber held with
    | none => (.refused,held)
    | some m => (.count (m + n),some (.value (intText (m + n))))
  | .sadd vs => onSet held fun s => (.count (((s ∪ bytesOf vs).card : Int) - s.card),holdSet (s ∪ bytesOf vs))
  | .srem vs => onSet held fun s => (.count ((s.card : Int) - (s \ bytesOf vs).card),holdSet (s \ bytesOf vs))
  | .scard => onSet held fun s => (.count s.card,held)
  | .smembers => onSet held fun s => (.members s,held)
  | .sismember v => onSet held fun s => (.test (v.bytes ∈ s),held)

/-- A command of one tenant, or the end of the time of a key. -/
inductive TenantEvent where
  | command (ns key : Bytes) (c : TenantCommand)
  | expires (ns key : Bytes)

def TenantStore.put (a : TenantStore) (ns key : Bytes) (held : Option Held) : TenantStore :=
  fun ns' key' => if ns' = ns ∧ key' = key then held else a ns' key'

def TenantStore.after (a : TenantStore) : TenantEvent → TenantStore
  | .command ns key c => a.put ns key (c.apply (a ns key)).2
  | .expires ns key => a.put ns key none

/-- Numbers fit in 32 bits, and the list of a set in a reply that can be framed. -/
def TenantCommand.InRange (held : Option Held) : TenantCommand → Prop
  | .incrBy n => (-2 ^ 31 ≤ n ∧ n < 2 ^ 31) ∧ ∀ m, heldNumber held = some m →
      (-2 ^ 31 ≤ m ∧ m < 2 ^ 31) ∧ -2 ^ 31 ≤ m + n ∧ m + n < 2 ^ 31
  | .scard => ∀ s, heldSet held = some s → s.card < 2 ^ 31
  | .smembers => ∀ s, heldSet held = some s → ∑ v ∈ s, (v.length + 32) ≤ 2 ^ 28
  | _ => True

section Utf8

def Held.InUtf8 : Held → Prop
  | .value v => IsUtf8 v
  | .members s => ∀ v ∈ s, IsUtf8 v

def Answer.InUtf8 : Answer → Prop
  | .value v => ∀ w ∈ v, IsUtf8 w
  | .members s => ∀ v ∈ s, IsUtf8 v
  | _ => True

/-- The values that a command stores are in UTF-8. -/
def TenantCommand.InUtf8 : TenantCommand → Prop
  | .set v => IsUtf8 v.bytes
  | .sadd vs => ∀ v ∈ vs, IsUtf8 v.bytes
  | _ => True

variable {held : Option Held}

theorem heldSet_inUtf8 (hheld : ∀ h ∈ held, h.InUtf8) {s : Finset Bytes} (hs : heldSet held = some s) :
    ∀ v ∈ s, IsUtf8 v := by
  cases held with
  | none =>
    cases hs
    exact fun v hv => absurd hv (Finset.notMem_empty v)
  | some h =>
    cases h with
    | value w => cases hs
    | members r =>
      cases hs
      exact hheld _ rfl

theorem holdSet_inUtf8 {s : Finset Bytes} (hs : ∀ v ∈ s, IsUtf8 v) : ∀ h ∈ holdSet s, h.InUtf8 := by
  intro h hh
  unfold holdSet at hh
  split at hh
  · cases hh
  · cases hh
    exact hs

theorem onSet_inUtf8 (hheld : ∀ h ∈ held, h.InUtf8) {f : Finset Bytes → Answer × Option Held}
    (hf : ∀ s : Finset Bytes, (∀ v ∈ s, IsUtf8 v) → (f s).1.InUtf8 ∧ ∀ h ∈ (f s).2, h.InUtf8) :
    (onSet held f).1.InUtf8 ∧ ∀ h ∈ (onSet held f).2, h.InUtf8 := by
  unfold onSet
  split
  · exact ⟨trivial,hheld⟩
  · rename_i s hs
    exact hf s (heldSet_inUtf8 hheld hs)

theorem TenantCommand.InUtf8.apply {c : TenantCommand} (hc : c.InUtf8) (hheld : ∀ h ∈ held, h.InUtf8) :
    (c.apply held).1.InUtf8 ∧ ∀ h ∈ (c.apply held).2, h.InUtf8 := by
  cases c with
  | get =>
    cases held with
    | none => exact ⟨fun w hw => (nomatch hw),hheld⟩
    | some h =>
      cases h with
      | value v =>
        refine ⟨fun w hw => ?_,hheld⟩
        cases hw
        exact hheld _ rfl
      | members s => exact ⟨trivial,hheld⟩
  | set v =>
    refine ⟨trivial,fun h hh => ?_⟩
    cases hh
    exact hc
  | del => exact ⟨trivial,fun h hh => nomatch hh⟩
  | incrBy n =>
    rw [TenantCommand.apply]
    split
    · exact ⟨trivial,hheld⟩
    · refine ⟨trivial,fun h hh => ?_⟩
      cases hh
      exact isUtf8_intText _
  | sadd vs =>
    refine onSet_inUtf8 hheld fun s hs => ⟨trivial,holdSet_inUtf8 fun v hv => ?_⟩
    rcases Finset.mem_union.mp hv with hv | hv
    · exact hs v hv
    · obtain ⟨w,hw,rfl⟩ := List.mem_map.mp (List.mem_toFinset.mp hv)
      exact hc w hw
  | srem vs =>
    exact onSet_inUtf8 hheld fun s hs =>
      ⟨trivial,holdSet_inUtf8 fun v hv => hs v (Finset.mem_sdiff.mp hv).1⟩
  | scard => exact onSet_inUtf8 hheld fun s hs => ⟨trivial,hheld⟩
  | smembers => exact onSet_inUtf8 hheld fun s hs => ⟨hs,hheld⟩
  | sismember v => exact onSet_inUtf8 hheld fun s hs => ⟨trivial,hheld⟩

end Utf8

end QkPack

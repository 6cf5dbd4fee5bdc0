import QkPack.Lib.KeyServer

/-!
# The scripts for counters and sets

`incrByScript` and `addRSetScript` of the configuration, as the server runs them. A call that fails ends its script and
leaves what the calls before it have done.
-/

namespace QkPack
open Wire CString Resp KeyServer

section Scripts

variable (lua : Lua)

def incrByScript : KeyServer.Script
  | key :: _, increment :: seconds :: _, store =>
    match incrby key store increment with
    | .error e => (.error (lua.failed e),store)
    | .ok (n,store) =>
      match expire key store seconds with
      | .error e => (.error (lua.failed e),store)
      | .ok store => (.integer (lua.number n),store)
  | _, _, store => (.error (lua.failed badCommand),store)

/-- The loop over the members; it goes by the count and not by the arguments that are there. -/
def addRSetLoop (key : Bytes) : Nat → List Bytes → KeyServer.Store → Option Line × KeyServer.Store
  | 0, _, store => (none,store)
  | n + 1, member :: args, store =>
    match sadd key store member with
    | .error e => (some e,store)
    | .ok store => addRSetLoop key n args store
  | _ + 1, [], store => (some badCommand,store)

def addRSetScript : KeyServer.Script
  | key :: _, seconds :: count :: args, store =>
    match KeyServer.members key store, Redis.readNat count with
    | .error e, _ => (.error (lua.failed e),store)
    | .ok _, none => (.error (lua.failed badCommand),store)
    | .ok before, some n =>
      match addRSetLoop key n args store with
      | (some e,store) => (.error (lua.failed e),store)
      | (none,store) =>
        match expire key store seconds with
        | .error e => (.error (lua.failed e),store)
        | .ok store =>
          match KeyServer.members key store with
          | .error e => (.error (lua.failed e),store)
          | .ok after => (.integer (lua.number ((after.length : Int) - before.length)),store)
  | _, _, store => (.error (lua.failed badCommand),store)

end Scripts

section Counters

variable (lua : Lua) {key seconds : Bytes} {store : KeyServer.Store} {m n t : Int}

theorem incrByScript_refuses {e : Line} (hn : -2 ^ 63 ≤ n ∧ n < 2 ^ 63) (hcounter : counter key store = .error e) :
    incrByScript lua [key] [intText n,seconds] store = (.error (lua.failed e),store) := by
  have hincr : incrby key store (intText n) = .error e := by
    rw [incrby, readNumber_intText hn.1 hn.2]
    simp only [hcounter]
    rfl
  simp only [incrByScript, hincr]

theorem incrByScript_counts (hn : -2 ^ 31 ≤ n ∧ n < 2 ^ 31) (hcounter : counter key store = .ok m)
    (hsum : -2 ^ 31 ≤ m + n ∧ m + n < 2 ^ 31) (hseconds : readNumber seconds = some t) (ht : 0 < t) {b : Bulk}
    (hb : b.bytes = intText (m + n)) :
    incrByScript lua [key] [intText n,seconds] store =
      (.integer (m + n),Function.update store key (some (.string b))) := by
  have hincr : incrby key store (intText n) = .ok (m + n,Function.update store key (some (.string b))) := by
    rw [incrby, readNumber_intText (by omega) (by omega)]
    simp only [hcounter, bind, Except.bind, pure, Except.pure]
    rw [if_pos (by omega), ← hb, bulk_bytes]
  simp only [incrByScript, hincr, expire_of_pos hseconds ht, lua.number_exact (m + n) (by omega)]

end Counters

section Sets

variable (lua : Lua) {key seconds : Bytes} {store : KeyServer.Store} {l : List Bulk} {t : Int}

theorem addRSetLoop_item (hl : store key = setItem l) (ms : List Bulk) (rest : List Bytes) :
    addRSetLoop key ms.length (ms.map (·.bytes) ++ rest) store =
      (none,Function.update store key (setItem (ms.foldl addMember l))) := by
  induction ms generalizing store l with
  | nil =>
    rw [List.foldl_nil, ← hl, Function.update_eq_self]
    rfl
  | cons m ms ih =>
    have hitem : Function.update store key (setItem (addMember l m)) key = setItem (addMember l m) :=
      Function.update_self ..
    have hnext := ih hitem
    simp only [List.length_cons, List.map_cons, List.cons_append, addRSetLoop, sadd_of_item hl m, hnext,
      Function.update_idem, List.foldl_cons]

theorem addRSetScript_adds (hl : store key = setItem l) (ms : List Bulk)
    (hseconds : readNumber seconds = some t) (ht : 0 < t)
    (hnew : ((ms.foldl addMember l).length - l.length : Int).natAbs ≤ 2 ^ 53) :
    addRSetScript lua [key] (seconds :: decimal ms.length :: ms.map (·.bytes)) store =
      (.integer ((ms.foldl addMember l).length - l.length),
        Function.update store key (setItem (ms.foldl addMember l))) := by
  have hloop := addRSetLoop_item hl ms []
  rw [List.append_nil] at hloop
  have hafter : KeyServer.members key (Function.update store key (setItem (ms.foldl addMember l))) =
      .ok (ms.foldl addMember l) := members_of_item (Function.update_self ..)
  simp only [addRSetScript, members_of_item hl, Redis.readNat_decimal, hloop, expire_of_pos hseconds ht, hafter,
    lua.number_exact _ hnew]

theorem addRSetScript_refuses {e : Line} (hmembers : KeyServer.members key store = .error e) (seconds : Bytes)
    (args : List Bytes) :
    addRSetScript lua [key] (seconds :: decimal args.length :: args) store = (.error (lua.failed e),store) := by
  simp only [addRSetScript, hmembers]

end Sets

end QkPack

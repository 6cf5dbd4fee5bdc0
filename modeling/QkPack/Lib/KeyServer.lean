import QkPack.Lib.Redis
import QkPack.Lib.Utf8

/-!
# Servers for strings, counters and sets

What is asked of a server: how it carries out the commands of Redis on a single key that holds a string or a set. A
command on a key of the wrong kind is answered with an error line and changes nothing. Keys may also vanish on their own
when their time is over, which is not part of a command. `Server.plain` is a server that does so and knows nothing else.
-/

namespace KeyServer
open Wire CString Resp

/-- What a key holds; a set has each of its members once. -/
inductive Item where
  | string (s : Bulk)
  | set (members : List Bulk)

abbrev Store := Bytes → Option Item

def line (s : String) (h : (text s).all (fun c => c != 13 && c != 10) = true) : Line :=
  ⟨text s,oneLine_of_all h⟩

def wrongType : Line := line "WRONGTYPE Operation against a key holding the wrong kind of value" (by decide)
def notInteger : Line := line "ERR value is not an integer or out of range" (by decide)
def overflow : Line := line "ERR increment or decrement would overflow" (by decide)
def badExpire : Line := line "ERR invalid expire time in setex" (by decide)
def badCommand : Line := line "ERR unknown command" (by decide)
def tooLong : Line := line "ERR Protocol error: invalid bulk length" (by decide)

/-- A number of 64 bits in its only spelling. -/
def readNumber (s : Bytes) : Option Int :=
  (Redis.readInt s).bind fun n => if intText n = s ∧ -2 ^ 63 ≤ n ∧ n < 2 ^ 63 then some n else none

def bulk (s : Bytes) : Except Line Bulk :=
  match Redis.bulk? s with
  | some b => .ok b
  | none => .error tooLong

section Strings

variable (key : Bytes) (store : Store)

def getString : Except Line Elem :=
  match store key with
  | none => .ok none
  | some (.string s) => .ok (some s)
  | some (.set _) => .error wrongType

def setex (seconds value : Bytes) : Except Line Store := do
  let s ← bulk value
  match readNumber seconds with
  | none => .error notInteger
  | some n => if 0 < n then .ok (Function.update store key (some (.string s))) else .error badExpire

def counter : Except Line Int :=
  match store key with
  | none => .ok 0
  | some (.string s) => (readNumber s.bytes).elim (.error notInteger) .ok
  | some (.set _) => .error wrongType

def incrby (increment : Bytes) : Except Line (Int × Store) := do
  match readNumber increment with
  | none => .error notInteger
  | some d =>
    let n ← counter key store
    if -2 ^ 63 ≤ n + d ∧ n + d < 2 ^ 63 then
      let s ← bulk (intText (n + d))
      return (n + d,Function.update store key (some (.string s)))
    else .error overflow

def expire (seconds : Bytes) : Except Line Store :=
  match readNumber seconds with
  | none => .error notInteger
  | some n => .ok (if 0 < n then store else Function.update store key none)

end Strings

section Sets

variable (key : Bytes) (store : Store)

def members : Except Line (List Bulk) :=
  match store key with
  | none => .ok []
  | some (.set l) => .ok l
  | some (.string _) => .error wrongType

def setItem (l : List Bulk) : Option Item := if l.isEmpty then none else some (.set l)

def putMembers (l : List Bulk) : Store := Function.update store key (setItem l)

def has (l : List Bulk) (member : Bytes) : Bool := l.any fun b => b.bytes == member

def addMember (l : List Bulk) (member : Bulk) : List Bulk := if has l member.bytes then l else l ++ [member]

def sadd (member : Bytes) : Except Line Store := do
  let m ← bulk member
  let l ← members key store
  return putMembers key store (addMember l m)

def without (l : List Bulk) (gone : List Bytes) : List Bulk := l.filter fun b => !gone.contains b.bytes

def srem (gone : List Bytes) : Except Line (Nat × Store) := do
  let l ← members key store
  return (l.length - (without l gone).length,putMembers key store (without l gone))

end Sets

abbrev Script := List Bytes → List Bytes → Store → Reply × Store

/-- How errors and numbers pass through the interpreter of the scripts: an error is reported with its own text or as
one of the interpreter, in a line of its own, and a number is kept while a double can hold it. -/
structure Lua where
  failed : Line → Line
  failed_length : ∀ l, (failed l).bytes.length ≤ 2 ^ 20
  failed_utf8 : ∀ l, IsUtf8 (failed l).bytes
  failed_cases : ∀ l, text "ERR" <+: (failed l).bytes ∨ l.bytes <+: (failed l).bytes
  number : Int → Int
  number_exact : ∀ n, n.natAbs ≤ 2 ^ 53 → number n = n

def answer (store : Store) : Except Line (Reply × Store) → Reply × Store
  | .ok (reply,store) => (reply,store)
  | .error e => (.error e,store)

/-- A server: its scripts, the order in which it lists a set, and what it does with a command. What it does with other
commands, and with arguments that are not of the right form, is left open. -/
structure Server where
  scripts : Bytes → Option Script
  order : List Bulk → List Bulk
  exec : Store → List Bytes → Reply × Store
  order_perm : ∀ l, (order l).Perm l
  exec_get : ∀ store key, exec store [text "GET",key] =
    answer store ((getString key store).map fun e => (.bulk e,store))
  exec_del : ∀ store key, exec store [text "DEL",key] =
    (.integer (if (store key).isSome then 1 else 0),Function.update store key none)
  exec_setex : ∀ store key seconds n (s : Bulk), readNumber seconds = some n → 0 < n →
    exec store [text "SETEX",key,seconds,s.bytes] =
      (.status (line "OK" (by decide)),Function.update store key (some (.string s)))
  exec_scard : ∀ store key, exec store [text "SCARD",key] =
    answer store ((members key store).map fun l => (.integer l.length,store))
  exec_smembers : ∀ store key, exec store [text "SMEMBERS",key] =
    answer store ((members key store).map fun l => (.array ((order l).map some),store))
  exec_sismember : ∀ store key member, exec store [text "SISMEMBER",key,member] =
    answer store ((members key store).map fun l => (.integer (if has l member then 1 else 0),store))
  exec_srem : ∀ store key gone, gone ≠ [] → exec store (text "SREM" :: key :: gone) =
    answer store ((srem key store gone).map fun (n,store) => (.integer n,store))
  /-- `EVALSHA sha 1 key arg …`. -/
  exec_evalsha : ∀ store sha script key args, scripts sha = some script →
    exec store (text "EVALSHA" :: sha :: text "1" :: key :: args) = script [key] args store

section Plain

variable (scripts : Bytes → Option Script) (order : List Bulk → List Bulk) (store : Store)

def evalsha : List Bytes → Reply × Store
  | sha :: numkeys :: args =>
    match scripts sha, Redis.readNat numkeys with
    | some script, some n =>
      if n ≤ args.length then script (args.take n) (args.drop n) store else (.error badCommand,store)
    | _, _ => (.error badCommand,store)
  | _ => (.error badCommand,store)

def plainExec : List Bytes → Reply × Store
  | name :: key :: args =>
    if name = text "EVALSHA" then evalsha scripts store (key :: args)
    else answer store <|
      if name = text "GET" ∧ args = [] then (getString key store).map fun e => (.bulk e,store)
      else if name = text "DEL" ∧ args = [] then
        .ok (.integer (if (store key).isSome then 1 else 0),Function.update store key none)
      else if name = text "SCARD" ∧ args = [] then
        (members key store).map fun l => (.integer l.length,store)
      else if name = text "SMEMBERS" ∧ args = [] then
        (members key store).map fun l => (.array ((order l).map some),store)
      else if name = text "SREM" ∧ args ≠ [] then
        (srem key store args).map fun (n,store) => (.integer n,store)
      else match args with
        | [member] =>
          if name = text "SISMEMBER" then
            (members key store).map fun l => (.integer (if has l member then 1 else 0),store)
          else .error badCommand
        | [seconds,value] =>
          if name = text "SETEX" then
            (setex key store seconds value).map fun store => (.status (line "OK" (by decide)),store)
          else .error badCommand
        | _ => .error badCommand
  | _ => (.error badCommand,store)

end Plain

theorem readNumber_intText {n : Int} (hlow : -2 ^ 63 ≤ n) (hhigh : n < 2 ^ 63) : readNumber (intText n) = some n := by
  rw [readNumber, Redis.readInt_intText, Option.bind_some, if_pos ⟨rfl,hlow,hhigh⟩]

theorem readNumber_eq_some {s : Bytes} {n : Int} (h : readNumber s = some n) :
    s = intText n ∧ -2 ^ 63 ≤ n ∧ n < 2 ^ 63 := by
  obtain ⟨m,-,hm⟩ := Option.bind_eq_some_iff.mp h
  obtain ⟨⟨htext,hrange⟩,hn⟩ := Option.ite_none_right_eq_some.mp hm
  cases hn
  exact ⟨htext.symm,hrange⟩

theorem bulk_bytes (b : Bulk) : bulk b.bytes = .ok b := by
  have hb : Redis.bulk? b.bytes = some b := by
    rw [Redis.bulk?, dif_pos b.size_le]
  rw [bulk, hb]

section Items

variable {key : Bytes} {store : Store} {l : List Bulk}

theorem members_of_item (h : store key = setItem l) : members key store = .ok l := by
  unfold members
  rw [h, setItem]
  cases l <;> rfl

theorem sadd_of_item (h : store key = setItem l) (m : Bulk) :
    sadd key store m.bytes = .ok (Function.update store key (setItem (addMember l m))) := by
  rw [sadd, bulk_bytes, members_of_item h]
  rfl

theorem expire_of_pos {seconds : Bytes} {n : Int} (hseconds : readNumber seconds = some n) (hn : 0 < n) :
    expire key store seconds = .ok store := by
  simp only [expire, hseconds, if_pos hn]

theorem srem_of_item (h : store key = setItem l) (gone : List Bytes) :
    srem key store gone =
      .ok (l.length - (without l gone).length,Function.update store key (setItem (without l gone))) := by
  rw [srem, members_of_item h]
  rfl

end Items

theorem setex_of_pos {key : Bytes} {store : Store} {seconds : Bytes} {n : Int} (s : Bulk)
    (hseconds : readNumber seconds = some n) (hn : 0 < n) :
    setex key store seconds s.bytes = .ok (Function.update store key (some (.string s))) := by
  rw [setex, bulk_bytes, hseconds]
  simp only [bind, Except.bind, if_pos hn]

def Server.plain (scripts : Bytes → Option Script) (order : List Bulk → List Bulk)
    (order_perm : ∀ l, (order l).Perm l) : Server where
  scripts := scripts
  order := order
  exec := plainExec scripts order
  order_perm := order_perm
  exec_get := fun _ _ => rfl
  exec_del := fun _ _ => rfl
  exec_setex := fun store key seconds n s hseconds hn => by
    simp [plainExec, text, setex_of_pos s hseconds hn, Except.map, answer]
  exec_scard := fun _ _ => rfl
  exec_smembers := fun _ _ => rfl
  exec_sismember := fun store key member => by simp [plainExec, text]
  exec_srem := fun store key gone hgone => by simp [plainExec, text, hgone]
  exec_evalsha := fun store sha script key args hscript => by
    have hone : Redis.readNat (text "1") = some 1 := by decide
    simp [plainExec, evalsha, hscript, hone]

end KeyServer

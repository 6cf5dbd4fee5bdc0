import QkPack.Lib.Machine
import QkPack.Protocol.ReadBack

/-!
# Scripts on the nodes and in `map_script_`

The proxy remembers the hashes of the scripts it has loaded into a node; the node forgets the scripts when
it is restarted or flushed. A `NOSCRIPT` makes the proxy load what it does not remember.
-/

namespace QkPack
open Wire CString Resp

/-- The order in which `RedisProtoEncodeLoadScript` looks at the scripts. -/
def scriptOrder : List Script := [.addMultikv,.addZset,.incrby,.addRset]

theorem mem_scriptOrder (script : Script) : script ∈ scriptOrder := by
  cases script <;> decide

/-- The scripts that `loadScripts` has loaded into the node when it returns. -/
def loadedBy (proto : RedisProto) (nodeIp : Bytes) : List Script → ScriptCache → List Script
  | [], _ => []
  | script :: rest, scripts =>
    if scripts nodeIp script = [] then
      match proto.initClusterScript nodeIp script with
      | none => []
      | some sha => script :: loadedBy proto nodeIp rest fun ip s =>
          if ip = nodeIp ∧ s = script then sha else scripts ip s
    else loadedBy proto nodeIp rest scripts

section Loading

variable {proto : RedisProto} {nodeIp : Bytes}

theorem loadedBy_subset {list : List Script} {scripts : ScriptCache} :
    loadedBy proto nodeIp list scripts ⊆ list := by
  induction list generalizing scripts with
  | nil => exact List.Subset.refl _
  | cons script rest ih =>
    unfold loadedBy
    split
    · split
      · exact List.nil_subset _
      · exact List.cons_subset_cons script ih
    · exact List.subset_cons_of_subset script ih

theorem mem_loadedBy_iff {list : List Script} {scripts scripts' : ScriptCache} (hnodup : list.Nodup)
    (hok : loadScripts proto nodeIp list scripts = (.ok,scripts')) {script : Script}
    (hmem : script ∈ list) :
    script ∈ loadedBy proto nodeIp list scripts ↔ scripts nodeIp script = [] := by
  induction list generalizing scripts with
  | nil => cases hmem
  | cons first rest ih =>
    obtain ⟨hfirst,hrest⟩ := List.nodup_cons.mp hnodup
    unfold loadScripts at hok
    unfold loadedBy
    by_cases hempty : scripts nodeIp first = []
    · rw [if_pos hempty] at hok ⊢
      cases hinit : proto.initClusterScript nodeIp first with
      | none =>
        rw [hinit] at hok
        cases hok
      | some sha =>
        rw [hinit] at hok
        rcases List.mem_cons.mp hmem with rfl | hlist
        · exact iff_of_true List.mem_cons_self hempty
        · have hne : script ≠ first := by
            rintro rfl
            exact hfirst hlist
          have hlater := ih hrest hok hlist
          simp only [hne, and_false, if_false] at hlater
          rw [List.mem_cons, or_iff_right hne]
          exact hlater
    · rw [if_neg hempty] at hok ⊢
      rcases List.mem_cons.mp hmem with rfl | hlist
      · exact iff_of_false (fun hin => hfirst (loadedBy_subset hin)) hempty
      · exact ih hrest hok hlist

end Loading

/-- The two caches: `map_script_`, and the scripts that the nodes hold. -/
structure ScriptWorld where
  cache : ScriptCache
  held : Bytes → Script → Bool

/-- What happens to the scripts: an encoder loads them, an error reply is decoded, another worker loads
one, or a node is restarted or flushed. Whether a node can be reached may change from event to event. -/
inductive ScriptEvent where
  | encode (proto : RedisProto) (nodeIp : Bytes)
  | errorReply (proto : RedisProto) (reply : Bytes) (request : Request)
  | loadElsewhere (nodeIp : Bytes) (script : Script)
  | restart (nodeIp : Bytes)

/-- The reply is an error that begins with `NOSCRIPT`. -/
def isNoscript (reply : Bytes) : Bool := startsWith (peek reply 1) "NOSCRIPT"

namespace ScriptWorld

def handlingLoads (w : ScriptWorld) (proto : RedisProto) (reply : Bytes) (request : Request) :
    List Script :=
  if isNoscript reply then loadedBy proto request.nodeIp scriptOrder w.cache else []

/-- `loaded` are new on a node. -/
def hold (w : ScriptWorld) (nodeIp : Bytes) (loaded : List Script) : Bytes → Script → Bool :=
  fun ip script => w.held ip script || (ip == nodeIp && loaded.contains script)

def step (w : ScriptWorld) : ScriptEvent → Option ScriptWorld
  | .encode proto nodeIp => some
      { cache := (redisProtoEncodeLoadScript proto nodeIp w.cache).2
        held := w.hold nodeIp (loadedBy proto nodeIp scriptOrder w.cache) }
  | .errorReply proto reply request =>
    match redisProtoDecodeGetError proto reply 1 w.cache request with
    | .error _ => none
    | .ok (_,_,cache) => some ⟨cache,w.hold request.nodeIp (w.handlingLoads proto reply request)⟩
  | .loadElsewhere nodeIp script => some { w with held := w.hold nodeIp [script] }
  | .restart nodeIp => some { w with held := fun ip script => ip != nodeIp && w.held ip script }

def start : ScriptWorld := ⟨fun _ _ => [],fun _ _ => false⟩

/-- A `NOSCRIPT` that is answered with `REDIS_TRYAGAIN`. -/
def AnswersTryagain (w : ScriptWorld) : ScriptEvent → Prop
  | .errorReply proto reply request => isNoscript reply = true ∧
      ∃ r cache, redisProtoDecodeGetError proto reply 1 w.cache request = .ok (.tryagain,r,cache)
  | _ => False

/-- All four scripts are loaded into the node during the handling, which then holds them. -/
def Reloads (w : ScriptWorld) : ScriptEvent → Prop
  | .errorReply proto reply request => ∀ script,
      script ∈ w.handlingLoads proto reply request ∧
        ∀ w' ∈ w.step (.errorReply proto reply request), w'.held request.nodeIp script = true
  | _ => True

/-- The proxy remembers no script of the node that has sent the reply. -/
def Forgotten (w : ScriptWorld) : ScriptEvent → Prop
  | .errorReply _ _ request => ∀ script, w.cache request.nodeIp script = []
  | _ => True

section Histories

variable {w w' : ScriptWorld} {e : ScriptEvent}

theorem loadScript_of_tryagain {proto : RedisProto} {reply : Bytes} {request r : Request}
    {cache : ScriptCache} (hreply : isNoscript reply = true)
    (hdecode : redisProtoDecodeGetError proto reply 1 w.cache request = .ok (.tryagain,r,cache)) :
    loadScripts proto request.nodeIp scriptOrder w.cache = (.ok,cache) := by
  have hother (word : String) (hword : (text word).isPrefixOf (text "NOSCRIPT") = false)
      (hshort : (text word).length ≤ 8) : startsWith (peek reply 1) word = false := by
    rw [Bool.eq_false_iff]
    intro hstarts
    have hprefix := List.prefix_of_prefix_length_le (List.isPrefixOf_iff_prefix.mp hstarts)
      (List.isPrefixOf_iff_prefix.mp hreply) hshort
    rw [← List.isPrefixOf_iff_prefix, hword] at hprefix
    cases hprefix
  have hnoscript : startsWith (peek reply 1) "NOSCRIPT" = true := hreply
  simp only [redisProtoDecodeGetError, hother "MOVED" (by decide) (by decide),
    hother "ASK" (by decide) (by decide), hother "TRYAGAIN" (by decide) (by decide), hnoscript,
    Bool.false_eq_true, if_false, if_true] at hdecode
  have hload : redisProtoEncodeLoadScript proto request.nodeIp w.cache =
      loadScripts proto request.nodeIp scriptOrder w.cache := rfl
  rw [hload] at hdecode
  split at hdecode
  · rename_i heq
    cases hdecode
    exact heq
  · cases hdecode

theorem reloads_iff_forgotten (hanswer : w.AnswersTryagain e) : w.Reloads e ↔ w.Forgotten e := by
  cases e with
  | errorReply proto reply request =>
    obtain ⟨hreply,r,cache,hdecode⟩ := hanswer
    have hload := loadScript_of_tryagain hreply hdecode
    have hloads (script : Script) : script ∈ w.handlingLoads proto reply request ↔
        w.cache request.nodeIp script = [] := by
      rw [handlingLoads, if_pos hreply]
      exact mem_loadedBy_iff (by decide) hload (mem_scriptOrder script)
    constructor
    · intro hall script
      exact (hloads script).mp (hall script).1
    · intro hnone script
      have hmem := (hloads script).mpr (hnone script)
      refine ⟨hmem,?_⟩
      intro w' hw'
      rw [step, hdecode] at hw'
      cases hw'
      simp [hold, hmem]
  | _ => exact hanswer.elim

/-- In a history every `NOSCRIPT` that is answered with `TRYAGAIN` has all four scripts loaded exactly if
each of them comes from a node of which the proxy remembers no script. -/
theorem noscript_reloads_along_iff {es : List ScriptEvent} (hrun : Machine.run step start es = some w) :
    Machine.Along step (fun w e => w.AnswersTryagain e → w.Reloads e) start es ↔
      Machine.Along step (fun w e => w.AnswersTryagain e → w.Forgotten e) start es :=
  Machine.along_iff_along (I := fun _ => True) (fun _ _ => trivial)
    (fun _ _ => imp_congr_right reloads_iff_forgotten) trivial hrun

end Histories

def reachable : RedisProto := { literalProto with initClusterScript := fun _ _ => some (text "5f3a") }

def nodeA : Bytes := text "10.0.0.1:7000"

/-- The reply of `nodeA` to an `EVALSHA` of a request for it. -/
def noscriptFromA : ScriptEvent :=
  .errorReply reachable (text "-NOSCRIPT No matching script." ++ crlf)
    { Request.fresh with commandType := .incr, nodeIp := nodeA }

/-- A node to which a request was redirected before any script was loaded. -/
theorem noscript_reloads_along_redirected :
    ∃ w, Machine.run step start [noscriptFromA] = some w ∧ start.AnswersTryagain noscriptFromA ∧
      Machine.Along step (fun w e => w.AnswersTryagain e → w.Reloads e) start [noscriptFromA] :=
  ⟨_,rfl,⟨by decide,_,_,rfl⟩,(noscript_reloads_along_iff rfl).mpr
    ⟨fun _ _ => rfl,fun _ _ => trivial⟩⟩

/-- The scripts are loaded, the node is restarted and answers `NOSCRIPT`. The proxy loads nothing and
tries again on a node that holds no script. -/
theorem noscript_not_reloaded :
    ∃ w w', Machine.run step start [.encode reachable nodeA,.restart nodeA] = some w ∧
      w.AnswersTryagain noscriptFromA ∧ ¬ w.Reloads noscriptFromA ∧
      w.step noscriptFromA = some w' ∧ ∀ script, w'.held nodeA script = false := by
  refine ⟨_,_,rfl,⟨by decide,_,_,rfl⟩,?_,rfl,?_⟩
  · intro hall
    have hloaded := (hall .incrby).1
    revert hloaded
    decide
  · intro script
    cases script <;> decide

end ScriptWorld

end QkPack

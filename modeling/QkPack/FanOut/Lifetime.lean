import QkPack.Core.CreateRequest
import QkPack.FanOut.Propagation

/-!
# The life of a parent

`ngx_http_qksubrequest_handler` as it is called again and again: by nginx, when the body has arrived, and by every
sub-request that ends. It creates the parent, starts a round after the other and deletes the parent. nginx may
refuse a sub-request in the middle of a round.
-/

namespace QkPack
open Wire CString Resp

/-- `ctx->phase`. -/
inductive CtxPhase where
  | init | process | waitSubrequest | postSubrequest | final | done | error
deriving DecidableEq

/-- What `ngx_http_qksubrequest_init` returns. -/
inductive BodyRc where
  | ok | again | error | specialResponse
deriving DecidableEq

/-- What a call of the handler meets. -/
structure Invocation where
  body : BodyRc
  /-- The plugin is found. -/
  plugin : Bool
  /-- The body and the address of the server are found. -/
  prepared : Bool
  /-- What `CreateRequest` has made of the request. -/
  creation : Creation
  /-- So many sub-requests of a round are taken by `ngx_http_subrequest` before it fails. -/
  accepted : Nat

/-- `subr->done`. -/
def Sub.isDone : Sub → Bool
  | .pending _ => false
  | .failed => true
  | .running u => match u.stage with
    | .done _ => true
    | _ => false

def FanOut.allDone (s : FanOut) : Bool := (s.finished ++ s.subs).all Sub.isDone

structure Context where
  phase : CtxPhase
  /-- `ctx->data` with `ctx->subrequests`. The pointer stays when the parent is deleted. -/
  data : Option FanOut
  /-- How often the parent was deleted, and whether a sub-request was not done at that time. -/
  destroyed : Nat
  early : Bool

def Context.opened : Context := ⟨.init,none,0,false⟩

/-- `ngx_http_qksubrequest_destroy`. Where there is a parent, there is a plugin. -/
def Context.destroy (c : Context) : Context :=
  match c.data with
  | none => c
  | some s => { c with destroyed := c.destroyed + 1, early := c.early || !s.allDone }

/-- The end of the handler, from `QKSUBREQUEST_STATE_FINAL` on. -/
def Context.settle (c : Context) : Context :=
  match c.phase with
  | .final => { c with phase := .done }.destroy
  | .error => c.destroy
  | _ => c

section Handler

variable (h : Handler) (limits : Limits) (i : Invocation)

/-- What follows `CreateRequest` and `ProcessBody`: `ngx_http_qksubrequest_start`, or the answer. -/
def Context.proceed (c : Context) (s : FanOut) : QkpackRc × Parent → Context
  | (.again,p) => { c with
      phase := if p.subrequest.length ≤ i.accepted then .waitSubrequest else .error
      data := some ⟨p,(p.subrequest.take i.accepted).map .pending,s.finished ++ s.subs,none⟩ }
  | (_,p) => { c with phase := .final, data := some ⟨p,[],s.finished ++ s.subs,none⟩ }

/-- `ngx_http_qksubrequest_process_request`. Whatever `CreateRequest` returns, there is an answer if it does not ask
for sub-requests. -/
def Context.processRequest (c : Context) : Context :=
  if c.data.isSome ∨ i.plugin = false then { c with phase := .error }
  else if i.prepared = false then { c with phase := .error, data := some (.start Request.fresh) }
  else match i.creation with
    | .fanOut request => c.proceed i (.start request) (processParent h limits ⟨request,[],[]⟩)
    | .single request | .answered request => { c with phase := .final, data := some (.start request) }
    | .failed => { c with phase := .final, data := some (.start Request.fresh) }

/-- The parent as it is handed to `ProcessBody` after the check. -/
def FanOut.checked (s : FanOut) (allOk : Bool) : Parent :=
  { s.parent with
    request := { s.parent.request with cost := if allOk then s.parent.request.cost else 4000 } }

/-- `ngx_http_qksubrequest_handler`. -/
def Context.handler (c : Context) : Context :=
  match c.phase with
  | .init => match i.body with
    | .ok => ({ c with phase := .process }.processRequest h limits i).settle
    | .error => { c with phase := .error }.settle
    | .again | .specialResponse => c
  | .process => (c.processRequest h limits i).settle
  | .waitSubrequest => match c.data with
    | none => { c with phase := .error }.settle
    | some s => match qksubrequestCheck s.subs with
      | .again => c
      | .error => { c with phase := .error }.settle
      | .ok allOk => (c.proceed i s (processParent h limits (s.checked allOk))).settle
  | .postSubrequest => match c.data with
    | none => { c with phase := .error }.settle
    | some s => (c.proceed i s (processParent h limits s.parent)).settle
  | .final | .done | .error => c.settle

end Handler

inductive ContextEvent where
  | handler (i : Invocation)
  /-- Something happens to a sub-request. -/
  | sub (e : FanEvent)

section Steps

variable (h : Handler) (limits : Limits) (conf : UpstreamConf)

def contextStep (c : Context) : ContextEvent → Option Context
  | .handler i => some (c.handler h limits i)
  | .sub .post => none
  | .sub e => c.data.bind fun s => (fanStep h limits conf s e).map fun s' => { c with data := some s' }

/-- A call of the handler starts the round of `p`. -/
inductive Starts (i : Invocation) (c : Context) (p : Parent) : Prop where
  | first {request : Request} (hphase : c.phase = .init) (hbody : i.body = .ok) (hplugin : i.plugin = true)
      (hprepared : i.prepared = true) (hcreation : i.creation = .fanOut request)
      (hagain : processParent h limits ⟨request,[],[]⟩ = (.again,p))
  | next {s : FanOut} {allOk : Bool} (hphase : c.phase = .waitSubrequest) (hdata : c.data = some s)
      (hcheck : qksubrequestCheck s.subs = .ok allOk) (hagain : processParent h limits (s.checked allOk) = (.again,p))

/-- The handler is not called again once it has failed with a parent; a round is taken as a whole or not at all;
when the check meets a sub-request without an upstream, no other is still running. -/
structure Orderly (c : Context) (i : Invocation) : Prop where
  once : c.phase = .error → c.data = none
  whole : ∀ p, Starts h limits i c p → p.subrequest.length ≤ i.accepted ∨ i.accepted = 0
  together : ∀ s, c.phase = .waitSubrequest → c.data = some s → qksubrequestCheck s.subs = .error →
    s.subs.all Sub.isDone = true

end Steps

/-- The contexts between two calls of the handler. -/
inductive Lives : Context → Prop
  | init : Lives ⟨.init,none,0,false⟩
  | wait {s : FanOut} (hfinished : s.finished.all Sub.isDone = true) : Lives ⟨.waitSubrequest,some s,0,false⟩
  | done {s : FanOut} : Lives ⟨.done,some s,1,false⟩
  | bare : Lives ⟨.error,none,0,false⟩
  | dead {s : FanOut} {n : Nat} {early : Bool} : Lives ⟨.error,some s,n + 1,early⟩

/-- The parent was deleted at most once, and not too early. -/
def Context.Sound (c : Context) : Prop := c.destroyed ≤ 1 ∧ c.early = false

section Sound

variable {h : Handler} {limits : Limits} {conf : UpstreamConf} {i : Invocation} {s : FanOut}

theorem all_isDone_of_check {subs : List Sub} {allOk : Bool} (hcheck : qksubrequestCheck subs = .ok allOk) :
    subs.all Sub.isDone = true := by
  induction subs generalizing allOk with
  | nil => rfl
  | cons sub subs ih =>
    cases sub with
    | pending sub => cases hcheck
    | failed => cases hcheck
    | running u =>
      rw [List.all_cons, Bool.and_eq_true]
      cases hstage : u.stage with
      | done outcome =>
        rw [qksubrequestCheck, hstage] at hcheck
        refine ⟨by rw [Sub.isDone, hstage],?_⟩
        cases hrest : qksubrequestCheck subs with
        | ok b => exact ih hrest
        | again =>
          rw [hrest] at hcheck
          cases hcheck
        | error =>
          rw [hrest] at hcheck
          cases hcheck
      | _ =>
        rw [qksubrequestCheck, hstage] at hcheck
        cases hcheck

theorem all_pending_iff {subs : List SubRequest} {k : Nat} (hk : k < subs.length) :
    ((subs.take k).map Sub.pending).all Sub.isDone = true ↔ k = 0 := by
  cases k with
  | zero => exact iff_of_true rfl rfl
  | succ k =>
    cases subs with
    | nil => exact absurd hk (Nat.not_lt_zero _)
    | cons sub subs => exact iff_of_false Bool.false_ne_true (Nat.succ_ne_zero k)

theorem settle_error (s : FanOut) :
    (⟨.error,some s,0,false⟩ : Context).settle = ⟨.error,some s,1,!s.allDone⟩ := rfl

theorem settle_final (hdone : s.allDone = true) :
    (⟨.final,some s,0,false⟩ : Context).settle = ⟨.done,some s,1,false⟩ := by
  change (⟨.done,some s,1,!s.allDone⟩ : Context) = _
  rw [hdone]
  rfl

theorem sound_error_iff (s : FanOut) : (⟨.error,some s,0,false⟩ : Context).settle.Sound ↔ s.allDone = true := by
  rw [settle_error, Context.Sound]
  simp

theorem proceed_settle {phase : CtxPhase} {data : Option FanOut} (hdone : s.allDone = true)
    (called : QkpackRc × Parent) :
    Lives (((⟨phase,data,0,false⟩ : Context).proceed i s called).settle) ∧
      ((((⟨phase,data,0,false⟩ : Context).proceed i s called).settle).Sound ↔
        ∀ p, called = (.again,p) → p.subrequest.length ≤ i.accepted ∨ i.accepted = 0) := by
  obtain ⟨rc,p⟩ := called
  by_cases hagain : rc = .again
  · subst hagain
    rw [Context.proceed]
    by_cases hall : p.subrequest.length ≤ i.accepted
    · simp only [if_pos hall]
      refine ⟨.wait hdone,iff_of_true ⟨Nat.zero_le 1,rfl⟩ ?_⟩
      rintro _ ⟨⟩
      exact .inl hall
    · simp only [if_neg hall]
      refine ⟨.dead,(sound_error_iff _).trans ?_⟩
      rw [FanOut.allDone, List.all_append, Bool.and_eq_true]
      refine (and_iff_right hdone).trans ((all_pending_iff (Nat.lt_of_not_le hall)).trans ?_)
      constructor
      · rintro hzero _ -
        exact .inr hzero
      · intro hwhole
        exact (hwhole p rfl).resolve_left hall
  · have hfinal : (⟨phase,data,0,false⟩ : Context).proceed i s (rc,p) =
        ⟨.final,some ⟨p,[],s.finished ++ s.subs,none⟩,0,false⟩ := by
      cases rc
      case again => exact absurd rfl hagain
      all_goals rfl
    have hnone : (⟨p,[],s.finished ++ s.subs,none⟩ : FanOut).allDone = true := by
      rw [FanOut.allDone, List.append_nil]
      exact hdone
    rw [hfinal, settle_final hnone]
    refine ⟨.done,iff_of_true ⟨Nat.le_refl 1,rfl⟩ ?_⟩
    intro q hq
    exact absurd (congrArg Prod.fst hq) hagain

theorem fanStep_finished {s s' : FanOut} {e : FanEvent} (hpost : e ≠ .post)
    (hstep : fanStep h limits conf s e = some s') : s'.finished = s.finished := by
  cases (fanStep_move hstep).2 with
  | create _ _ => rfl
  | sub _ _ _ => rfl
  | error _ => exact absurd rfl hpost
  | post _ => exact absurd rfl hpost

theorem orderly_init_iff :
    Orderly h limits ⟨.init,none,0,false⟩ i ↔
      ∀ request p, i.body = .ok → i.plugin = true → i.prepared = true → i.creation = .fanOut request →
        processParent h limits ⟨request,[],[]⟩ = (.again,p) →
          p.subrequest.length ≤ i.accepted ∨ i.accepted = 0 := by
  constructor
  · intro horderly request p hbody hplugin hprepared hcreation hagain
    exact horderly.whole p (.first rfl hbody hplugin hprepared hcreation hagain)
  · intro hwhole
    constructor
    · intro hphase
      cases hphase
    · intro p hstarts
      cases hstarts with
      | first hphase hbody hplugin hprepared hcreation hagain =>
        exact hwhole _ p hbody hplugin hprepared hcreation hagain
      | next hphase => cases hphase
    · intro s hphase
      cases hphase

theorem orderly_wait_iff :
    Orderly h limits ⟨.waitSubrequest,some s,0,false⟩ i ↔
      (∀ allOk p, qksubrequestCheck s.subs = .ok allOk → processParent h limits (s.checked allOk) = (.again,p) →
        p.subrequest.length ≤ i.accepted ∨ i.accepted = 0) ∧
      (qksubrequestCheck s.subs = .error → s.subs.all Sub.isDone = true) := by
  constructor
  · intro horderly
    refine ⟨?_,horderly.together s rfl rfl⟩
    intro allOk p hcheck hagain
    exact horderly.whole p (.next rfl rfl hcheck hagain)
  · rintro ⟨hwhole,htogether⟩
    constructor
    · intro hphase
      cases hphase
    · intro p hstarts
      cases hstarts with
      | first hphase => cases hphase
      | next hphase hdata hcheck hagain =>
        cases hdata
        exact hwhole _ p hcheck hagain
    · intro t hphase hdata
      cases hdata
      exact htogether

theorem orderly_ended {c : Context} (hended : c.phase = .done ∨ c.phase = .error ∧ c.data = none) :
    Orderly h limits c i := by
  have hinit : c.phase ≠ .init := by rcases hended with hphase | ⟨hphase,-⟩ <;> rw [hphase] <;> decide
  have hwait : c.phase ≠ .waitSubrequest := by rcases hended with hphase | ⟨hphase,-⟩ <;> rw [hphase] <;> decide
  refine ⟨?_,?_,?_⟩
  · intro herror
    rcases hended with hdone | ⟨-,hnone⟩
    · cases hdone.symm.trans herror
    · exact hnone
  · intro p hstarts
    cases hstarts with
    | first hphase => exact absurd hphase hinit
    | next hphase => exact absurd hphase hwait
  · intro s hphase
    exact absurd hphase hwait

theorem processRequest_settle :
    Lives ((⟨.process,none,0,false⟩ : Context).processRequest h limits i).settle ∧
      (((⟨.process,none,0,false⟩ : Context).processRequest h limits i).settle.Sound ↔
        ∀ request p, i.plugin = true → i.prepared = true → i.creation = .fanOut request →
          processParent h limits ⟨request,[],[]⟩ = (.again,p) →
            p.subrequest.length ≤ i.accepted ∨ i.accepted = 0) := by
  have hnone : ¬ (none : Option FanOut).isSome := Bool.false_ne_true
  have hanswered (request : Request) : (⟨.final,some (.start request),0,false⟩ : Context).settle =
      ⟨.done,some (.start request),1,false⟩ := settle_final rfl
  rw [Context.processRequest]
  by_cases hplugin : i.plugin = false
  · rw [if_pos (.inr hplugin)]
    refine ⟨.bare,iff_of_true ⟨Nat.zero_le 1,rfl⟩ ?_⟩
    intro request p htrue
    exact absurd (htrue.symm.trans hplugin) Bool.true_eq_false.mp
  · rw [if_neg (not_or.mpr ⟨hnone,hplugin⟩)]
    by_cases hprepared : i.prepared = false
    · rw [if_pos hprepared]
      refine ⟨.dead,iff_of_true ⟨Nat.le_refl 1,rfl⟩ ?_⟩
      rintro request p - htrue
      exact absurd (htrue.symm.trans hprepared) Bool.true_eq_false.mp
    · rw [if_neg hprepared]
      cases hcreation : i.creation with
      | fanOut request =>
        have hstart : (FanOut.start request).allDone = true := rfl
        refine ⟨(proceed_settle hstart _).1,(proceed_settle hstart _).2.trans ?_⟩
        constructor
        · rintro hwhole _ p - - ⟨⟩ hagain
          exact hwhole p hagain
        · intro hwhole p hagain
          exact hwhole request p (Bool.eq_true_of_not_eq_false hplugin) (Bool.eq_true_of_not_eq_false hprepared) rfl
            hagain
      | _ =>
        simp only [hanswered]
        refine ⟨.done,iff_of_true ⟨Nat.le_refl 1,rfl⟩ ?_⟩
        rintro request' p - - hfan
        cases hfan

theorem handler_init :
    Lives ((⟨.init,none,0,false⟩ : Context).handler h limits i) ∧
      (((⟨.init,none,0,false⟩ : Context).handler h limits i).Sound ↔
        Orderly h limits ⟨.init,none,0,false⟩ i) := by
  rw [orderly_init_iff, Context.handler]
  simp only
  cases hbody : i.body with
  | ok =>
    simp only [forall_const]
    exact processRequest_settle
  | error =>
    refine ⟨.bare,iff_of_true ⟨Nat.zero_le 1,rfl⟩ ?_⟩
    intro request p hok
    cases hok
  | again =>
    refine ⟨.init,iff_of_true ⟨Nat.zero_le 1,rfl⟩ ?_⟩
    intro request p hok
    cases hok
  | specialResponse =>
    refine ⟨.init,iff_of_true ⟨Nat.zero_le 1,rfl⟩ ?_⟩
    intro request p hok
    cases hok

theorem handler_wait (hfinished : s.finished.all Sub.isDone = true) :
    Lives ((⟨.waitSubrequest,some s,0,false⟩ : Context).handler h limits i) ∧
      (((⟨.waitSubrequest,some s,0,false⟩ : Context).handler h limits i).Sound ↔
        Orderly h limits ⟨.waitSubrequest,some s,0,false⟩ i) := by
  rw [orderly_wait_iff, Context.handler]
  simp only
  cases hcheck : qksubrequestCheck s.subs with
  | again =>
    refine ⟨.wait hfinished,iff_of_true ⟨Nat.zero_le 1,rfl⟩ ⟨?_,?_⟩⟩
    · intro allOk p hok
      cases hok
    · intro herror
      cases herror
  | error =>
    refine ⟨.dead,(sound_error_iff s).trans ?_⟩
    rw [FanOut.allDone, List.all_append, hfinished, Bool.true_and]
    constructor
    · intro hdone
      refine ⟨?_,fun _ => hdone⟩
      intro allOk p hok
      cases hok
    · rintro ⟨-,htogether⟩
      exact htogether rfl
  | ok allOk =>
    have hdone : s.allDone = true := by
      rw [FanOut.allDone, List.all_append, hfinished, all_isDone_of_check hcheck]
      rfl
    refine ⟨(proceed_settle hdone _).1,(proceed_settle hdone _).2.trans ?_⟩
    constructor
    · intro hwhole
      refine ⟨?_,?_⟩
      · rintro b p ⟨⟩ hagain
        exact hwhole p hagain
      · intro herror
        cases herror
    · rintro ⟨hwhole,-⟩ p hagain
      exact hwhole allOk p rfl hagain

theorem contextStep_handler {c c' : Context} {i : Invocation} (hlives : Lives c)
    (hstep : contextStep h limits conf c (.handler i) = some c') :
    Lives c' ∧ (c'.Sound ↔ c.Sound ∧ Orderly h limits c i) := by
  cases hstep
  cases hlives with
  | init => exact ⟨handler_init.1,handler_init.2.trans (and_iff_right ⟨Nat.zero_le 1,rfl⟩).symm⟩
  | wait hfinished =>
    exact ⟨(handler_wait hfinished).1,(handler_wait hfinished).2.trans (and_iff_right ⟨Nat.zero_le 1,rfl⟩).symm⟩
  | done =>
    refine ⟨.done,iff_of_true ⟨Nat.le_refl 1,rfl⟩ ⟨⟨Nat.le_refl 1,rfl⟩,?_⟩⟩
    exact orderly_ended (.inl rfl)
  | bare =>
    refine ⟨.bare,iff_of_true ⟨Nat.zero_le 1,rfl⟩ ⟨⟨Nat.zero_le 1,rfl⟩,?_⟩⟩
    exact orderly_ended (.inr ⟨rfl,rfl⟩)
  | dead =>
    refine ⟨.dead,iff_of_false ?_ ?_⟩
    · rintro ⟨hdestroyed,-⟩
      exact Nat.not_succ_le_zero _ (Nat.le_of_succ_le_succ hdestroyed)
    · rintro ⟨-,horderly⟩
      cases horderly.once rfl

theorem contextStep_sub_eq {c c' : Context} {e : FanEvent} (hstep : contextStep h limits conf c (.sub e) = some c') :
    e ≠ .post ∧ ∃ s, c.data = some s ∧ ∃ s', fanStep h limits conf s e = some s' ∧ { c with data := some s' } = c' := by
  cases e with
  | post => cases hstep
  | create j shared parsed nodeIp =>
    obtain ⟨s,hs,hmap⟩ := Option.bind_eq_some_iff.mp hstep
    exact ⟨nofun,s,hs,Option.map_eq_some_iff.mp hmap⟩
  | sub j e =>
    obtain ⟨s,hs,hmap⟩ := Option.bind_eq_some_iff.mp hstep
    exact ⟨nofun,s,hs,Option.map_eq_some_iff.mp hmap⟩

theorem contextStep_sub {c c' : Context} {e : FanEvent} (hlives : Lives c)
    (hstep : contextStep h limits conf c (.sub e) = some c') : Lives c' ∧ (c'.Sound ↔ c.Sound) := by
  obtain ⟨hpost,s,hs,s',hs',rfl⟩ := contextStep_sub_eq hstep
  refine ⟨?_,Iff.rfl⟩
  cases hlives with
  | init => cases hs
  | wait hfinished =>
    cases hs
    apply Lives.wait
    rw [fanStep_finished hpost hs']
    exact hfinished
  | done => exact .done
  | bare => cases hs
  | dead => exact .dead

theorem contextStep_sound {c c' : Context} {e : ContextEvent} (hlives : Lives c)
    (hstep : contextStep h limits conf c e = some c') :
    Lives c' ∧ (c'.Sound ↔ c.Sound ∧ ∀ i, e = .handler i → Orderly h limits c i) := by
  cases e with
  | handler i =>
    obtain ⟨hlives',hsound⟩ := contextStep_handler hlives hstep
    refine ⟨hlives',hsound.trans (and_congr_right fun _ => ?_)⟩
    exact ⟨fun horderly j hj => ContextEvent.handler.inj hj ▸ horderly,fun hall => hall i rfl⟩
  | sub e =>
    obtain ⟨hlives',hsound⟩ := contextStep_sub hlives hstep
    exact ⟨hlives',hsound.trans (and_iff_left fun i hi => nomatch hi).symm⟩

end Sound

/-- The parent is deleted at most once, and only when all its sub-requests are done, exactly if all calls of the
handler are orderly. -/
theorem parent_lifetime_iff (h : Handler) (limits : Limits) (conf : UpstreamConf) {es : List ContextEvent}
    {c : Context} (hrun : Machine.run (contextStep h limits conf) Context.opened es = some c) :
    (c.destroyed ≤ 1 ∧ c.early = false) ↔
      Machine.Along (contextStep h limits conf) (fun c e => ∀ i, e = .handler i → Orderly h limits c i)
        Context.opened es :=
  (Machine.holds_run_iff contextStep_sound .init hrun).trans (and_iff_right ⟨Nat.zero_le 1,rfl⟩)

/-- A call of the handler for `MGET` of two keys, where nginx takes so many sub-requests. -/
def mgetCall (accepted : Nat) : ContextEvent := .handler ⟨.ok,true,true,.fanOut mgetTwo,accepted⟩

def mgetContext (es : List ContextEvent) : Option Context :=
  Machine.run (contextStep plainHandler ⟨10,10⟩ (tableConf 3 3)) Context.opened es

/-- Both sub-requests are taken and answered, and each of them calls the handler. -/
def answeredCalls : List ContextEvent :=
  [mgetCall 2] ++ ((createEvents (text "10.0.0.1:7000")).tail ++ answerEvents 1 oneValue).map .sub ++ [mgetCall 2] ++
    (answerEvents 0 oneValue).map .sub ++ [mgetCall 2]

theorem parent_lifetime_mget :
    ∃ c, mgetContext answeredCalls = some c ∧ c.phase = .done ∧ c.destroyed = 1 ∧
      Machine.Along (contextStep plainHandler ⟨10,10⟩ (tableConf 3 3))
        (fun c e => ∀ i, e = .handler i → Orderly plainHandler ⟨10,10⟩ c i) Context.opened answeredCalls := by
  have hends : (mgetContext answeredCalls).map (fun c => (c.phase,c.destroyed,c.early)) = some (.done,1,false) := by
    decide +kernel
  obtain ⟨c,hrun,hc⟩ := Option.map_eq_some_iff.mp hends
  obtain ⟨hphase,hrest⟩ := Prod.mk.inj hc
  obtain ⟨hdestroyed,hearly⟩ := Prod.mk.inj hrest
  exact ⟨c,hrun,hphase,hdestroyed,
    (parent_lifetime_iff plainHandler ⟨10,10⟩ (tableConf 3 3) hrun).mp ⟨hdestroyed.le,hearly⟩⟩

/-- nginx refuses the second sub-request, and the parent is deleted while the first one is to be run. The next call
deletes it once more. -/
theorem parent_deleted_early :
    (mgetContext [mgetCall 1]).map (fun c => (c.phase,c.destroyed,c.early)) = some (.error,1,true) ∧
      (mgetContext [mgetCall 1,mgetCall 1]).map (·.destroyed) = some 2 := by
  decide +kernel

end QkPack

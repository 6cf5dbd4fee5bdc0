import QkPack.Retry.Asking

/-!
# Tries and timeouts of the requests of a location

`ngx_http_qkupstream_process_request` writes the tries and the timeout that access control gave a request into
the configuration of the location, where `ngx_http_upstream_next` and the timers of every request read them.
-/

namespace QkPack
open Wire CString Resp

/-- `upstream_tries` and the three timeouts in `u->conf`. -/
structure Times where
  tries : Nat
  connectTimeout : Nat
  sendTimeout : Nat
  readTimeout : Nat
deriving DecidableEq

/-- `request->tries` and `request->timeout`. -/
structure Budget where
  tries : Nat
  timeout : Nat
deriving DecidableEq

/-- What is meant for a request: what the entry of its record says, where this is not zero, and otherwise what is
configured for the location. -/
def Times.meantFor (configured : Times) : Option Budget → Times
  | none => configured
  | some b =>
    let timeout (t : Nat) := if 0 < b.timeout then b.timeout else t
    ⟨if 0 < b.tries then b.tries else configured.tries,timeout configured.connectTimeout,
      timeout configured.sendTimeout,timeout configured.readTimeout⟩

/-- A location with its requests: the configuration, the two variables of the module that keep the first values
they find there, and for every request its state and what is meant for it. -/
structure Location where
  conf : Times
  staticTries : Nat
  staticTimeout : Nat
  requests : List Upstream
  meant : List Times

/-- A location as its first request finds it; the variables may have got their values from another location. -/
def Location.start (configured : Times) (statics : Budget) : Location :=
  ⟨configured,statics.tries,statics.timeout,[],[]⟩

/-- The end of `process_request`: zeros are not written. -/
def Times.write (conf : Times) (b : Budget) : Times :=
  let timeout (t : Nat) := if 0 < b.timeout then b.timeout else t
  ⟨if 0 < b.tries then b.tries else conf.tries,timeout conf.connectTimeout,timeout conf.sendTimeout,
    timeout conf.readTimeout⟩

/-- A request whose `CreateRequest` succeeds, with the entry that `CheckInterfaceTimeout` finds for it, if it does; a
sub-request, which has none; a request whose `CreateRequest` fails; and what happens to a request. -/
inductive LocationEvent where
  | create (entry : Option Budget) (request : Request)
  | refuse
  | upstream (i : Nat) (e : Event)

section Step

variable (h : Handler) (conf : UpstreamConf) (configured : Times)

def Location.latch (s : Location) : Location :=
  { s with
    staticTries := if s.staticTries = 0 then s.conf.tries else s.staticTries
    staticTimeout := if s.staticTimeout = 0 then s.conf.connectTimeout else s.staticTimeout }

/-- `request->tries` and `request->timeout`, which are 32 bits wide, when `CreateRequest` returns. -/
def Location.budget (s : Location) (entry : Option Budget) : Budget :=
  entry.getD ⟨s.staticTries % 2 ^ 32,s.staticTimeout % 2 ^ 32⟩

def locationStep (s : Location) : LocationEvent → Option Location
  | .create entry request =>
    let b := s.latch.budget entry
    some { s.latch with
      conf := s.conf.write b
      requests := s.requests ++ [Upstream.start conf { request with tries := b.tries }]
      meant := s.meant ++ [configured.meantFor entry] }
  | .refuse => some s.latch
  | .upstream i e =>
    match s.requests[i]? with
    | none => none
    | some u =>
      (step h { conf with upstreamTries := s.conf.tries } u e).map fun v =>
        { s with requests := s.requests.set i v }

end Step

def lastPositive (values : List Nat) (default : Nat) : Nat :=
  ((values.filter (0 < ·)).getLast?).getD default

theorem lastPositive_append (values : List Nat) (value default : Nat) :
    lastPositive (values ++ [value]) default = if 0 < value then value else lastPositive values default := by
  unfold lastPositive
  rw [List.filter_append]
  split
  · rename_i hpos
    rw [List.filter_cons_of_pos (by simpa using hpos), List.filter_nil, List.getLast?_concat, Option.getD_some]
  · rename_i hzero
    rw [List.filter_cons_of_neg (by simpa using hzero), List.filter_nil, List.append_nil]

/-- What the budgets of the requests have made of the configuration. -/
def Times.after (configured : Times) (budgets : List Budget) : Times :=
  let timeout := lastPositive (budgets.map Budget.timeout)
  ⟨lastPositive (budgets.map Budget.tries) configured.tries,timeout configured.connectTimeout,
    timeout configured.sendTimeout,timeout configured.readTimeout⟩

theorem after_append (configured : Times) (budgets : List Budget) (b : Budget) :
    configured.after (budgets ++ [b]) = (configured.after budgets).write b := by
  simp only [Times.after, Times.write, List.map_append, List.map_cons, List.map_nil, lastPositive_append]

def firstPositive (values : List Nat) : Nat := (values.find? (0 < ·)).getD 0

theorem firstPositive_cons (value : Nat) (values : List Nat) :
    firstPositive (value :: values) = if value = 0 then firstPositive values else value := by
  unfold firstPositive
  split
  · rename_i hzero
    rw [List.find?_cons_of_neg (by simp [hzero])]
  · rename_i hpos
    rw [List.find?_cons_of_pos (by simpa using Nat.pos_of_ne_zero hpos), Option.getD_some]

theorem firstPositive_pair (first second : Nat) :
    firstPositive [first,second] = if first = 0 then second else first := by
  rw [firstPositive_cons, firstPositive_cons, firstPositive]
  split <;> simp_all

theorem firstPositive_append (values : List Nat) (value : Nat) :
    firstPositive (values ++ [value]) = if firstPositive values = 0 then value else firstPositive values := by
  induction values with
  | nil =>
    rw [List.nil_append, firstPositive_cons]
    by_cases hzero : value = 0 <;> simp [hzero, firstPositive]
  | cons first values ih =>
    rw [List.cons_append, firstPositive_cons, firstPositive_cons, ih]
    by_cases hzero : first = 0 <;> simp [hzero]

/-- A value once found stays; until then an entry that says nothing brings nothing. -/
theorem firstPositive_next (values : List Nat) (entries : List (Option Budget)) (entry : Option Budget)
    (field : Budget → Nat) :
    firstPositive (values ++ (entries ++ [entry]).filterMap (Option.map field)) =
      if firstPositive (values ++ entries.filterMap (Option.map field)) = 0
      then (entry.map field).getD (firstPositive (values ++ entries.filterMap (Option.map field)) % 2 ^ 32)
      else firstPositive (values ++ entries.filterMap (Option.map field)) := by
  rw [List.filterMap_append, ← List.append_assoc]
  cases entry with
  | none =>
    rw [List.filterMap_cons_none rfl, List.filterMap_nil, List.append_nil]
    split
    · rename_i hzero
      rw [hzero]
      rfl
    · rfl
  | some b => exact firstPositive_append _ _

def entriesOf (es : List LocationEvent) : List (Option Budget) :=
  es.filterMap fun
    | .create entry _ => some entry
    | _ => none

section Schedule

variable (configured : Times) (statics : Budget)

/-- What the variables of the module hold for a request after others with these entries: the first value that is
not zero of what they held at the start, what is configured, and what the entries said. -/
def staticsAfter (entries : List (Option Budget)) : Budget :=
  ⟨firstPositive ([statics.tries,configured.tries] ++ entries.filterMap (Option.map Budget.tries)),
    firstPositive ([statics.timeout,configured.connectTimeout] ++ entries.filterMap (Option.map Budget.timeout))⟩

/-- The budget that a request gets: what its entry says or else what the variables hold. -/
def budgetAfter (entries : List (Option Budget)) (entry : Option Budget) : Budget :=
  let values := staticsAfter configured statics entries
  entry.getD ⟨values.tries % 2 ^ 32,values.timeout % 2 ^ 32⟩

def budgetsOf (entries : List (Option Budget)) : List Budget :=
  entries.mapIdx fun k entry => budgetAfter configured statics (entries.take k) entry

theorem budgetsOf_append (entries : List (Option Budget)) (entry : Option Budget) :
    budgetsOf configured statics (entries ++ [entry]) =
      budgetsOf configured statics entries ++ [budgetAfter configured statics entries entry] := by
  unfold budgetsOf
  rw [List.mapIdx_append, List.mapIdx_singleton, Nat.zero_add, List.take_left]
  congr 1
  apply List.ext_getElem (by simp)
  intro k hk hk'
  have hle : k ≤ entries.length := by simpa using Nat.le_of_lt hk
  simp [List.take_append_of_le_length hle]

theorem staticsAfter_tries (entries : List (Option Budget)) (entry : Option Budget) :
    (staticsAfter configured statics (entries ++ [entry])).tries =
      if (staticsAfter configured statics entries).tries = 0 then (budgetAfter configured statics entries entry).tries
      else (staticsAfter configured statics entries).tries := by
  refine (firstPositive_next _ entries entry Budget.tries).trans ?_
  cases entry <;> rfl

theorem staticsAfter_timeout (entries : List (Option Budget)) (entry : Option Budget) :
    (staticsAfter configured statics (entries ++ [entry])).timeout =
      if (staticsAfter configured statics entries).timeout = 0
      then (budgetAfter configured statics entries entry).timeout
      else (staticsAfter configured statics entries).timeout := by
  refine (firstPositive_next _ entries entry Budget.timeout).trans ?_
  cases entry <;> rfl

/-- What a location holds after requests with these entries. -/
structure Told (entries : List (Option Budget)) (s : Location) : Prop where
  conf : s.conf = configured.after (budgetsOf configured statics entries)
  meant : s.meant = entries.map configured.meantFor
  tries : s.latch.staticTries = (staticsAfter configured statics entries).tries
  timeout : s.latch.staticTimeout = (staticsAfter configured statics entries).timeout

theorem told_start : Told configured statics [] (Location.start configured statics) where
  conf := rfl
  meant := rfl
  tries := (firstPositive_pair _ _).symm
  timeout := (firstPositive_pair _ _).symm

end Schedule

theorem latch_latch (s : Location) : s.latch.latch = s.latch := by
  simp only [Location.latch]
  by_cases htries : s.staticTries = 0 <;> by_cases htimeout : s.staticTimeout = 0 <;> simp [htries, htimeout]

/-- A variable that is still zero after the request takes what the request writes. -/
theorem latched_write {static latched conf : Nat} (value : Nat)
    (hlatched : (if static = 0 then conf else static) = latched) :
    (if latched = 0 then (if 0 < value then value else conf) else latched) =
      if latched = 0 then value else latched := by
  grind

variable {h : Handler} {conf : UpstreamConf} {configured : Times} {statics : Budget} {s s' : Location}

theorem Told.create {entries : List (Option Budget)} (hs : Told configured statics entries s)
    (entry : Option Budget) (request : Request)
    (hstep : locationStep h conf configured s (.create entry request) = some s') :
    Told configured statics (entries ++ [entry]) s' := by
  cases hstep
  have hbudget : s.latch.budget entry = budgetAfter configured statics entries entry := by
    unfold Location.budget budgetAfter
    rw [hs.tries, hs.timeout]
  refine ⟨?_,?_,?_,?_⟩
  · rw [budgetsOf_append, after_append, ← hs.conf, hbudget]
  · rw [List.map_append, hs.meant]
    rfl
  · rw [staticsAfter_tries, ← hbudget, ← hs.tries]
    exact latched_write _ rfl
  · rw [staticsAfter_timeout, ← hbudget, ← hs.timeout]
    exact latched_write _ rfl

theorem locationStep_told {before : List LocationEvent} {e : LocationEvent}
    (hs : Told configured statics (entriesOf before) s) (hstep : locationStep h conf configured s e = some s') :
    Told configured statics (entriesOf (before ++ [e])) s' := by
  rw [entriesOf, List.filterMap_append]
  cases e with
  | create entry request => exact hs.create entry request hstep
  | refuse =>
    cases hstep
    rw [List.filterMap_cons_none rfl, List.filterMap_nil, List.append_nil]
    refine ⟨hs.conf,hs.meant,?_,?_⟩
    · rw [latch_latch]
      exact hs.tries
    · rw [latch_latch]
      exact hs.timeout
  | upstream i e =>
    rw [List.filterMap_cons_none rfl, List.filterMap_nil, List.append_nil]
    unfold locationStep at hstep
    simp only at hstep
    split at hstep
    · cases hstep
    · obtain ⟨v,-,rfl⟩ := Option.map_eq_some_iff.mp hstep
      exact ⟨hs.conf,hs.meant,hs.tries,hs.timeout⟩

/-- A retry of a request and its timers find the tries and the timeouts that are meant for it. -/
def Budgeted (s : Location) : LocationEvent → Prop
  | .upstream i _ => ∀ meant ∈ s.meant[i]?, s.conf = meant
  | _ => True

/-- The last request with tries, and the last with a timeout, that the schedule has created had the ones meant for
this one. -/
def LastAlike (configured : Times) (statics : Budget) (entries : List (Option Budget)) (i : Nat) : Prop :=
  ∀ entry ∈ entries[i]?, configured.after (budgetsOf configured statics entries) = configured.meantFor entry

theorem Told.budgeted_iff {entries : List (Option Budget)} (hs : Told configured statics entries s) (i : Nat)
    (e : Event) : Budgeted s (.upstream i e) ↔ LastAlike configured statics entries i := by
  simp only [Budgeted, LastAlike]
  rw [hs.meant, hs.conf, List.getElem?_map]
  cases entries[i]? <;> simp

/-- However the requests of a location are interleaved, they have their own tries and timeouts exactly if none of
them goes on after another one has been created with others. -/
theorem shared_budget_iff (h : Handler) (conf : UpstreamConf) (configured : Times) (statics : Budget)
    (es : List LocationEvent) :
    Machine.Along (locationStep h conf configured) Budgeted (Location.start configured statics) es ↔
      ∀ before i e after, es = before ++ .upstream i e :: after →
        (Machine.run (locationStep h conf configured) (Location.start configured statics) before).isSome →
        LastAlike configured statics (entriesOf before) i := by
  have htold : ∀ {before s}, Machine.run (locationStep h conf configured) (Location.start configured statics) before =
      some s → Told configured statics (entriesOf before) s :=
    Machine.traced_run (I := fun before => Told configured statics (entriesOf before)) locationStep_told
      (told_start configured statics)
  rw [Machine.along_iff_forall_run]
  constructor
  · intro halong before i e after hes hrun
    obtain ⟨s,hs⟩ := Option.isSome_iff_exists.mp hrun
    exact ((htold hs).budgeted_iff i e).mp (halong before _ after s hes hs)
  · intro halike before e after s hes hs
    cases e with
    | create entry request => trivial
    | refuse => trivial
    | upstream i e =>
      exact ((htold hs).budgeted_iff i e).mpr (halike before i e after hes (Option.isSome_of_eq_some hs))

instance (s : Location) : DecidablePred (Budgeted s)
  | .upstream i _ => inferInstanceAs (Decidable (∀ meant ∈ s.meant[i]?, s.conf = meant))
  | .create _ _ | .refuse => inferInstanceAs (Decidable True)

/-- One try in a hundred milliseconds for the first request, five in two seconds for the second, which is created
before the first fails. -/
def crossedEvents : List LocationEvent :=
  [.create (some ⟨1,100⟩) (getRequest 0),.upstream 0 (.connect emptyWorld [] .ok),
    .create (some ⟨5,2000⟩) (getRequest 0),.upstream 0 .timeout]

def crossedRun (es : List LocationEvent) : Option Location :=
  Machine.run (locationStep plainHandler (tableConf 3 3) ⟨3,60,60,60⟩) (Location.start ⟨3,60,60,60⟩ ⟨0,0⟩) es

/-- The first request gets a second try, which it would not have got alone. -/
theorem shared_budget_crossed :
    ¬ Machine.Along (locationStep plainHandler (tableConf 3 3) ⟨3,60,60,60⟩) Budgeted
        (Location.start ⟨3,60,60,60⟩ ⟨0,0⟩) crossedEvents ∧
      (crossedRun crossedEvents).bind (fun s => (s.requests[0]?).map Upstream.stage) = some .connect ∧
      (crossedRun (crossedEvents.eraseIdx 2)).bind (fun s => (s.requests[0]?).map Upstream.stage) =
        some (.done (.gaveUp .timeout)) :=
  ⟨by decide +kernel,by decide +kernel,by decide +kernel⟩

end QkPack

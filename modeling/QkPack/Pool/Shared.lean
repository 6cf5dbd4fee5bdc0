import QkPack.Pool.Connection
import QkPack.Pool.Ledger

/-!
# Requests that share the pool

Any number of requests use the connections of a worker at a time. Every connection carries its own stream of replies;
the pool decides which request reads from which stream.
-/

namespace QkPack
open Wire Resp Function

/-- The pool, the stream of every connection, the answer of the node to the command each request has sent last, and
what `ProcessBody` was given: the request, that answer and the bytes. -/
structure SharedPool where
  pool : KeepalivePool
  wires : Nat → Conn
  asked : Nat → Reply
  log : List (Nat × Reply × Bytes)

def SharedPool.init (maxCached : Nat) : SharedPool :=
  ⟨initKeepalive maxCached,fun _ => Conn.fresh,fun _ => .bulk none,[]⟩

/-- A request is given a connection and sends its command, it reads `n` bytes, it fails; an idle connection becomes
readable. What a request leaves its connection with comes with the event that may be its last. -/
inductive PoolUse where
  | take (r : Nat) (sockaddr : Bytes) (fresh : Nat) (request : Request) (es : List Event) (asking own : Reply)
  | read (r : Nat) (world : World) (n : Nat) (e : PeerEnd)
  | fail (r : Nat) (e : PeerEnd)
  | readable (c : Nat) (e : ReadEvent)

section Steps

variable (h : Handler) (conf : UpstreamConf)

/-- The connection that a request gets has its old stream if it was in the cache, and a new one otherwise. -/
def takeShared (s : SharedPool) (r : Nat) (sockaddr : Bytes) (fresh : Nat) (request : Request) (es : List Event)
    (asking own : Reply) : Option SharedPool :=
  (getKeepalivePeer s.pool r sockaddr fresh).bind fun pool =>
    (pool.peers r).bind fun peer =>
      let wire := if (s.pool.search sockaddr).isSome then s.wires peer.connection else Conn.fresh
      (connStep h conf wire (.take request es asking own)).map fun wire =>
        ⟨pool,update s.wires peer.connection wire,update s.asked r own,s.log⟩

/-- A response is the end of the request, which leaves `u->keepalive` set; after anything else it is not set. -/
def readShared (s : SharedPool) (r : Nat) (world : World) (n : Nat) (e : PeerEnd) : Option SharedPool :=
  (s.pool.peers r).bind fun peer =>
    let old := s.wires peer.connection
    (connStep h conf old (.read world n)).bind fun wire =>
      let wires := update s.wires peer.connection wire
      let log := s.log ++ (wire.handed.drop old.handed.length).map fun entry => (r,s.asked r,entry.2)
      match wire.mode with
      | .busy _ _ => some ⟨s.pool,wires,s.asked,log⟩
      | .pooled => (freeKeepalivePeer s.pool r e).map fun pool => ⟨pool,wires,s.asked,log⟩
      | .closed =>
        if e.keeps then none else (freeKeepalivePeer s.pool r e).map fun pool => ⟨pool,wires,s.asked,log⟩

def sharedStep (s : SharedPool) : PoolUse → Option SharedPool
  | .take r sockaddr fresh request es asking own => takeShared h conf s r sockaddr fresh request es asking own
  | .read r world n e => readShared h conf s r world n e
  | .fail r e =>
    if e.keeps then none else (freeKeepalivePeer s.pool r e).map fun pool => { s with pool := pool }
  | .readable c e => (closeHandler s.pool c e).map fun pool => { s with pool := pool }

/-- The conditions of a single connection, on each. -/
def SharedCuts (s : SharedPool) : PoolUse → Prop
  | .take _ _ _ request es asking own => Created request ∧ CutsHeld h conf Conn.fresh (.take request es asking own)
  | .read r world n _ => ∀ peer, s.pool.peers r = some peer →
      CutsHeld h conf (s.wires peer.connection) (.read world n)
  | _ => True

end Steps

def KeepalivePool.Idle (k : KeepalivePool) (c : Nat) : Prop := ∃ i ∈ k.cache, (k.items i).connection = c

section Frames

variable {l l' : Ledger} {r c : Nat} {peer : HeldPeer}

theorem idle_iff_ledger (k : KeepalivePool) (c : Nat) :
    k.Idle c ↔ ∃ peer ∈ k.ledger.idle, peer.connection = c := by
  simp [KeepalivePool.Idle, KeepalivePool.ledger, CacheItem.peer]

theorem open_iff_ledger (k : KeepalivePool) (c : Nat) : k.sockets c ≠ none ↔ k.ledger.opened c ≠ none := by
  simp [KeepalivePool.ledger]

theorem foldl_close_le (closed : List HeldPeer) (opened : Nat → Option Bytes)
    (hc : closed.foldl (fun (o : Nat → Option Bytes) peer => update o peer.connection none) opened c ≠ none) :
    opened c ≠ none := by
  induction closed generalizing opened with
  | nil => exact hc
  | cons peer closed ih =>
    have hopen := ih _ hc
    by_cases hsame : c = peer.connection
    · subst hsame
      exact absurd (update_self ..) hopen
    · simpa only [update_of_ne hsame] using hopen

theorem close_opened (hc : (l.close r).opened c ≠ none) : c ≠ r ∧ l.opened c ≠ none := by
  by_cases hsame : c = r
  · subst hsame
    exact absurd (update_self ..) hc
  · refine ⟨hsame,?_⟩
    simpa only [Ledger.close, update_of_ne hsame] using hc

theorem ledger_free_frame (l : Ledger) (capacity r c : Nat) (e : PeerEnd) (hr : l.peers r = some peer) :
    ((l.free capacity r e).opened c ≠ none → l.opened c ≠ none) ∧
      (∀ idle ∈ (l.free capacity r e).idle, idle ∈ l.idle ∨ idle = peer ∧ e.keeps = true) ∧
        (e.keeps = false → (l.free capacity r e).opened peer.connection = none) ∧
          (l.free capacity r e).peers = update l.peers r none := by
  simp only [Ledger.free, hr]
  split
  · rename_i hkeeps
    have hkept : ∀ idle ∈ (l.keep capacity r peer).idle, idle ∈ l.idle ∨ idle = peer ∧ e.keeps = true := by
      intro idle hidle
      rcases List.mem_cons.mp hidle with rfl | hold
      · exact .inr ⟨rfl,hkeeps⟩
      · exact .inl (List.mem_of_mem_take hold)
    split
    · refine ⟨fun hc => foldl_close_le (l.idle.drop (capacity - 1)) _ (close_opened hc).2,?_,?_,rfl⟩
      · intro idle hidle
        exact hkept idle (List.mem_filter.mp hidle).1
      · simp [hkeeps]
    · exact ⟨foldl_close_le (l.idle.drop (capacity - 1)) _,hkept,by simp [hkeeps],rfl⟩
  · rename_i hkeeps
    refine ⟨fun hc => (close_opened hc).2,?_,fun _ => update_self ..,rfl⟩
    intro idle hidle
    exact .inl (List.mem_filter.mp hidle).1

theorem ledger_get_frame {sockaddr : Bytes} {fresh : Nat} (hget : l.get r sockaddr fresh = some l') :
    l.peers r = none ∧ ∃ peer, l'.peers = update l.peers r (some peer) ∧
      ((∃ found ∈ l.idle, l.idle.find? (fun idle => idle.sockaddr = sockaddr) = some found ∧ peer = found ∧
          l'.opened = l.opened ∧ ∀ idle ∈ l'.idle, idle ∈ l.idle) ∨
        l.idle.find? (fun idle => idle.sockaddr = sockaddr) = none ∧ l.opened peer.connection = none ∧
          l'.opened = update l.opened peer.connection (some sockaddr) ∧ l'.idle = l.idle) := by
  unfold Ledger.get at hget
  split at hget
  · cases hget
  · rename_i hr
    refine ⟨not_not.mp hr,?_⟩
    split at hget
    · rename_i found hfind
      cases hget
      exact ⟨found,rfl,.inl ⟨found,List.mem_of_find?_eq_some hfind,hfind,rfl,rfl,
        fun idle => List.mem_of_mem_erase⟩⟩
    · rename_i hfind
      split at hget
      · cases hget
      · rename_i hfresh
        cases hget
        exact ⟨⟨fresh,sockaddr⟩,rfl,.inr ⟨hfind,not_not.mp hfresh,rfl,rfl⟩⟩

end Frames

structure SharedSound (n : Nat) (s : SharedPool) : Prop where
  pool : PoolSound n [] s.pool
  wires : ∀ c, s.pool.sockets c ≠ none → Uncrossed (s.wires c)
  idle : ∀ c, s.pool.Idle c → (s.wires c).mode = .pooled
  held : ∀ r peer, s.pool.peers r = some peer → ∃ u, (s.wires peer.connection).mode = .busy u (s.asked r)
  log : ∀ entry ∈ s.log, entry.2.2 = encode entry.2.1

theorem uncrossed_fresh : Uncrossed Conn.fresh := by
  refine ⟨nofun,fun _ => rfl,?_⟩
  intro u own hbusy
  cases hbusy

section Sound

variable {h : Handler} {conf : UpstreamConf} {n : Nat} {s s' : SharedPool} {r : Nat}

theorem PoolSound.open_of_idle {k : KeepalivePool} (hk : PoolSound n [] k) {c : Nat} (hc : k.Idle c) :
    k.sockets c ≠ none := by
  obtain ⟨i,hi,rfl⟩ := hc
  rw [hk.idle i hi]
  nofun

theorem PoolSound.open_of_held {k : KeepalivePool} (hk : PoolSound n [] k) {peer : HeldPeer}
    (hr : k.peers r = some peer) : k.sockets peer.connection ≠ none := by
  rw [hk.held r peer hr]
  nofun

theorem PoolSound.not_idle_of_held {k : KeepalivePool} (hk : PoolSound n [] k) {peer : HeldPeer}
    (hr : k.peers r = some peer) : ¬ k.Idle peer.connection := by
  rintro ⟨i,hi,hsame⟩
  exact hk.item_ne_held hi hr hsame

theorem SharedSound.leave (hs : SharedSound (n + 1) s) {peer : HeldPeer} (hr : s.pool.peers r = some peer)
    {e : PeerEnd} {pool : KeepalivePool} (hfree : freeKeepalivePeer s.pool r e = some pool) {wire : Conn}
    (hwire : Uncrossed wire) (hmode : e.keeps = true → wire.mode = .pooled) {log : List (Nat × Reply × Bytes)}
    (hlog : ∀ entry ∈ log, entry.2.2 = encode entry.2.1) :
    SharedSound (n + 1) ⟨pool,update s.wires peer.connection wire,s.asked,log⟩ := by
  have hsound : PoolSound (n + 1) [] pool := PoolSound.step (e := .freePeer r e) hs.pool hfree
  have hledger : pool.ledger = s.pool.ledger.free (n + 1) r e := by
    have hmap := hs.pool.ledger_free n.succ_pos r e
    rw [hfree] at hmap
    exact Option.some.inj hmap
  have hframe := fun c => ledger_free_frame s.pool.ledger (n + 1) r c e hr
  have hopen : ∀ c, pool.sockets c ≠ none → s.pool.sockets c ≠ none := by
    intro c hc
    rw [open_iff_ledger, hledger] at hc
    rw [open_iff_ledger]
    exact (hframe c).1 hc
  have hpeers : pool.peers = update s.pool.peers r none := by
    have hsame : pool.ledger.peers = update s.pool.ledger.peers r none := hledger ▸ (hframe 0).2.2.2
    exact hsame
  refine ⟨hsound,?_,?_,?_,hlog⟩
  · intro c hc
    by_cases hsame : c = peer.connection
    · subst hsame
      simpa only [update_self] using hwire
    · simp only [update_of_ne hsame]
      exact hs.wires c (hopen c hc)
  · intro c hc
    obtain ⟨idle,hidle,rfl⟩ := (idle_iff_ledger pool c).mp hc
    rw [hledger] at hidle
    rcases (hframe 0).2.1 idle hidle with hold | ⟨rfl,hkeeps⟩
    · have hidle' : s.pool.Idle idle.connection := (idle_iff_ledger _ _).mpr ⟨idle,hold,rfl⟩
      have hne : idle.connection ≠ peer.connection := fun hsame =>
        hs.pool.not_idle_of_held hr (hsame ▸ hidle')
      simp only [update_of_ne hne]
      exact hs.idle _ hidle'
    · simpa only [update_self] using hmode hkeeps
  · intro r' peer' hr'
    have hne : r' ≠ r := by
      rintro rfl
      rw [hpeers, update_self] at hr'
      cases hr'
    rw [hpeers, update_of_ne hne] at hr'
    have hconn : peer'.connection ≠ peer.connection := fun hsame => hne (hs.pool.held_inj hr' hr hsame)
    simp only [update_of_ne hconn]
    exact hs.held r' peer' hr'

theorem SharedSound.take (hs : SharedSound (n + 1) s) {sockaddr : Bytes} {fresh : Nat} {request : Request}
    {es : List Event} {asking own : Reply}
    (hcuts : SharedCuts h conf s (.take r sockaddr fresh request es asking own))
    (hstep : takeShared h conf s r sockaddr fresh request es asking own = some s') : SharedSound (n + 1) s' := by
  obtain ⟨pool,hget,hstep⟩ := Option.bind_eq_some_iff.mp hstep
  obtain ⟨peer,hr,hstep⟩ := Option.bind_eq_some_iff.mp hstep
  obtain ⟨wire,hwire,rfl⟩ := Option.map_eq_some_iff.mp hstep
  have hsound : PoolSound (n + 1) [] pool := PoolSound.step (e := .getPeer r sockaddr fresh) hs.pool hget
  have hledger : s.pool.ledger.get r sockaddr fresh = some pool.ledger := by
    rw [← hs.pool.ledger_get r sockaddr fresh, hget, Option.map_some]
  obtain ⟨-,peer',hpeers,hcases⟩ := ledger_get_frame hledger
  have hpeers : pool.peers = update s.pool.peers r (some peer') := hpeers
  have hpeer : peer' = peer := by
    rw [hpeers, update_self] at hr
    exact Option.some.inj hr
  subst hpeer
  have hopen : ∀ c, c ≠ peer'.connection → pool.sockets c ≠ none → s.pool.sockets c ≠ none := by
    intro c hne hc
    rw [open_iff_ledger] at hc ⊢
    rcases hcases with ⟨-,-,-,-,hsame,-⟩ | ⟨-,-,hopened,-⟩
    · rwa [hsame] at hc
    · rwa [hopened, update_of_ne hne] at hc
  have hidle : ∀ c, pool.Idle c → s.pool.Idle c := by
    intro c hc
    rw [idle_iff_ledger] at hc ⊢
    obtain ⟨idle,hmem,rfl⟩ := hc
    rcases hcases with ⟨-,-,-,-,-,hsub⟩ | ⟨-,-,-,hsame⟩
    · exact ⟨idle,hsub idle hmem,rfl⟩
    · exact ⟨idle,hsame ▸ hmem,rfl⟩
  -- the stream before the command: that of an idle connection, or a new one
  have hbefore : Uncrossed (if (s.pool.search sockaddr).isSome then s.wires peer'.connection else Conn.fresh) := by
    split
    · rename_i hfound
      rcases hcases with ⟨found,hmem,-,rfl,-⟩ | ⟨hnone,-⟩
      · have hidle' : s.pool.Idle peer'.connection := (idle_iff_ledger _ _).mpr ⟨peer',hmem,rfl⟩
        exact hs.wires _ (hs.pool.open_of_idle hidle')
      · rw [ledger_find, Option.map_eq_none_iff] at hnone
        rw [hnone] at hfound
        cases hfound
    · exact uncrossed_fresh
  have hafter : Uncrossed wire := uncrossed_take hbefore hcuts.1 hcuts.2 hwire
  refine ⟨hsound,?_,?_,?_,hs.log⟩
  · intro c hc
    by_cases hsame : c = peer'.connection
    · subst hsame
      simpa only [update_self] using hafter
    · simp only [update_of_ne hsame]
      exact hs.wires c (hopen c hsame hc)
  · intro c hc
    have hne : c ≠ peer'.connection := by
      rintro rfl
      exact hsound.not_idle_of_held hr hc
    simp only [update_of_ne hne]
    exact hs.idle c (hidle c hc)
  · intro r' other hr'
    by_cases hsame : r' = r
    · subst hsame
      rw [hr] at hr'
      cases hr'
      obtain ⟨-,u,-,-,-,rfl⟩ := connStep_take hwire
      exact ⟨u,by simp only [update_self]⟩
    · have hconn : other.connection ≠ peer'.connection := fun hc => hsame (hsound.held_inj hr' hr hc)
      rw [hpeers, update_of_ne hsame] at hr'
      simp only [update_of_ne hconn, update_of_ne hsame]
      exact hs.held r' other hr'

theorem connStep_read {c c' : Conn} {world : World} {count : Nat}
    (hstep : connStep h conf c (.read world count) = some c') :
    ∃ u own, c.mode = .busy u own ∧
      c'.mode = modeAfter (processHeader h conf world (c.flight.take count) u) own ∧
        ∃ new, c'.handed = c.handed ++ new ∧ ∀ entry ∈ new, entry.1 = own := by
  simp only [connStep] at hstep
  split at hstep
  · rename_i u own hmode
    split at hstep
    · cases hstep
      refine ⟨u,own,hmode,rfl,_,rfl,?_⟩
      intro entry hentry
      obtain ⟨bytes,-,rfl⟩ := Option.map_eq_some_iff.mp (Option.mem_toList.mp hentry)
      rfl
    · cases hstep
  · cases hstep

theorem modeAfter_busy {u v : Upstream} {own r : Reply} (hbusy : modeAfter u own = .busy v r) : r = own := by
  unfold modeAfter at hbusy
  split at hbusy <;> cases hbusy
  rfl

/-- A request reads from its own connection only, so that what it is given is the answer to its own command. -/
theorem SharedSound.read (hs : SharedSound (n + 1) s) {world : World} {count : Nat} {e : PeerEnd}
    (hcuts : SharedCuts h conf s (.read r world count e))
    (hstep : readShared h conf s r world count e = some s') : SharedSound (n + 1) s' := by
  obtain ⟨peer,hr,hstep⟩ := Option.bind_eq_some_iff.mp hstep
  obtain ⟨wire,hwire,hstep⟩ := Option.bind_eq_some_iff.mp hstep
  have hbefore := hs.wires _ (hs.pool.open_of_held hr)
  have hafter : Uncrossed wire := uncrossed_read hbefore (hcuts peer hr) hwire
  obtain ⟨u,own,hbusy,hmode,new,hhanded,hown⟩ := connStep_read hwire
  have hasked : own = s.asked r := by
    obtain ⟨v,hv⟩ := hs.held r peer hr
    cases hbusy.symm.trans hv
    rfl
  have hlog : ∀ entry ∈ s.log ++ (wire.handed.drop (s.wires peer.connection).handed.length).map
      (fun entry => (r,s.asked r,entry.2)), entry.2.2 = encode entry.2.1 := by
    intro entry hentry
    rcases List.mem_append.mp hentry with hold | hnew
    · exact hs.log entry hold
    · rw [hhanded, List.drop_left] at hnew
      obtain ⟨given,hgiven,rfl⟩ := List.mem_map.mp hnew
      have hencode := hafter.handed given (hhanded ▸ List.mem_append_right _ hgiven)
      rw [hencode, hown given hgiven, hasked]
  split at hstep
  · -- the request waits for more
    rename_i v own' hgoes
    cases hstep
    refine ⟨hs.pool,?_,?_,?_,hlog⟩
    · intro c hc
      by_cases hsame : c = peer.connection
      · subst hsame
        simpa only [update_self] using hafter
      · simp only [update_of_ne hsame]
        exact hs.wires c hc
    · intro c hc
      have hne : c ≠ peer.connection := by
        rintro rfl
        exact hs.pool.not_idle_of_held hr hc
      simp only [update_of_ne hne]
      exact hs.idle c hc
    · intro r' other hr'
      by_cases hsame : r' = r
      · subst hsame
        cases hr.symm.trans hr'
        have hkept : own' = own := modeAfter_busy (hmode.symm.trans hgoes)
        exact ⟨v,by simp only [update_self, hgoes, hkept, hasked]⟩
      · have hconn : other.connection ≠ peer.connection := fun hc => hsame (hs.pool.held_inj hr' hr hc)
        simp only [update_of_ne hconn]
        exact hs.held r' other hr'
  · rename_i hpooled
    obtain ⟨pool,hfree,rfl⟩ := Option.map_eq_some_iff.mp hstep
    exact hs.leave hr hfree hafter (fun _ => hpooled) hlog
  · split at hstep
    · cases hstep
    · rename_i hkeeps
      obtain ⟨pool,hfree,rfl⟩ := Option.map_eq_some_iff.mp hstep
      exact hs.leave hr hfree hafter (fun hkept => absurd hkept hkeeps) hlog

theorem SharedSound.readable (hs : SharedSound (n + 1) s) {c : Nat} {e : ReadEvent} {pool : KeepalivePool}
    (hclose : closeHandler s.pool c e = some pool) : SharedSound (n + 1) { s with pool := pool } := by
  have hsound := hs.pool.closed hclose
  rcases hs.pool.closeHandler_cases hclose with ⟨-,rfl⟩ | ⟨-,i,hi,rfl,rfl⟩
  · exact ⟨hs.pool,hs.wires,hs.idle,hs.held,hs.log⟩
  · refine ⟨hsound,?_,?_,hs.held,hs.log⟩
    · intro c hc
      have hne : c ≠ (s.pool.items i).connection := by
        rintro rfl
        exact hc (update_self ..)
      simp only [update_of_ne hne] at hc
      exact hs.wires c hc
    · rintro c ⟨j,hj,hjc⟩
      exact hs.idle c ⟨j,List.mem_of_mem_erase hj,hjc⟩

theorem sharedSound_step {e : PoolUse} (hs : SharedSound (n + 1) s) (hcuts : SharedCuts h conf s e)
    (hstep : sharedStep h conf s e = some s') : SharedSound (n + 1) s' := by
  cases e with
  | take r sockaddr fresh request es asking own => exact hs.take hcuts hstep
  | read r world count e => exact hs.read hcuts hstep
  | fail r e =>
    simp only [sharedStep] at hstep
    split at hstep
    · cases hstep
    · rename_i hkeeps
      obtain ⟨pool,hfree,rfl⟩ := Option.map_eq_some_iff.mp hstep
      cases hr : s.pool.peers r with
      | none =>
        simp only [freeKeepalivePeer, hr, Option.some.injEq] at hfree
        subst hfree
        exact hs
      | some peer =>
        have hleft := hs.leave hr hfree (hs.wires _ (hs.pool.open_of_held hr))
          (fun hkept => absurd hkept hkeeps) hs.log
        rwa [update_eq_self] at hleft
  | readable c e =>
    obtain ⟨pool,hclose,rfl⟩ := Option.map_eq_some_iff.mp hstep
    exact hs.readable hclose

theorem sharedSound_init (n : Nat) : SharedSound n (SharedPool.init n) := by
  refine ⟨PoolSound.init n,?_,?_,nofun,nofun⟩
  · intro c hc
    exact absurd rfl hc
  · rintro c ⟨i,hi,-⟩
    cases hi

/-- Whatever number of requests use the pool in whatever order, as long as replies are cut only where the framing
check waits and `ASKING` is answered where it is expected: every response given to a request is the answer to its own
command, and an idle connection has no bytes outstanding. -/
theorem shared_replies_uncrossed {uses : List PoolUse}
    (halong : Machine.Along (sharedStep h conf) (SharedCuts h conf) (SharedPool.init (n + 1)) uses)
    (hrun : Machine.run (sharedStep h conf) (SharedPool.init (n + 1)) uses = some s) :
    (∀ entry ∈ s.log, entry.2.2 = encode entry.2.1) ∧ ∀ c, s.pool.Idle c → (s.wires c).flight = [] := by
  have hsound := Machine.invariant_run sharedSound_step (sharedSound_init (n + 1)) halong hrun
  refine ⟨hsound.log,?_⟩
  intro c hc
  exact (hsound.wires c (hsound.pool.open_of_idle hc)).pooled (hsound.idle c hc)

end Sound

/-- A request reads all that its connection has for it. -/
def ReadsAll (s : SharedPool) : PoolUse → Bool
  | .read r _ n _ => (s.pool.peers r).all fun peer => (s.wires peer.connection).flight.length ≤ n
  | _ => true

/-- Two requests to one node at a time, answered in the other order, with one item in the pool; a third takes the
connection that was kept last. -/
def overtaking : List PoolUse :=
  let get (r fresh : Nat) (own : Reply) : PoolUse :=
    .take r [1] fresh (getRequest 3) [.connect emptyWorld [] .ok] okReply own
  [get 0 5 (.bulk abc),get 1 6 (.bulk none),.read 1 emptyWorld 5 endedWell,.read 0 emptyWorld 9 endedWell,
    get 2 7 (.bulk abc)]

theorem shared_replies_uncrossed_overtaking :
    ∃ s, Machine.run (sharedStep plainHandler (tableConf 3 3)) (SharedPool.init 1) overtaking = some s ∧
      s.log.map (fun entry => entry.1) = [1,0] ∧ s.pool.peers 2 = some ⟨5,[1]⟩ ∧
        (∀ entry ∈ s.log, entry.2.2 = encode entry.2.1) ∧ ∀ c, s.pool.Idle c → (s.wires c).flight = [] := by
  have hend : (Machine.run (sharedStep plainHandler (tableConf 3 3)) (SharedPool.init 1) overtaking).map
      (fun s => (s.log.map (fun entry => entry.1),s.pool.peers 2)) = some ([1,0],some ⟨5,[1]⟩) := by
    decide +kernel
  obtain ⟨s,hrun,hs⟩ := Option.map_eq_some_iff.mp hend
  obtain ⟨hlog,hpeer⟩ := Prod.mk.inj hs
  have hreads : Machine.Along (sharedStep plainHandler (tableConf 3 3)) (fun s e => ReadsAll s e = true)
      (SharedPool.init 1) overtaking := by
    decide +kernel
  have htakes : ∀ e ∈ overtaking, ∀ r sockaddr fresh request es asking own,
      e = .take r sockaddr fresh request es asking own → Created request ∧
        CutsHeld plainHandler (tableConf 3 3) Conn.fresh (.take request es asking own) := by
    have hasking : Machine.Along (step plainHandler (tableConf 3 3)) KeepsAsking
        (Upstream.start (tableConf 3 3) (getRequest 3)) [.connect emptyWorld [] .ok] := by
      decide +kernel
    rintro e he r sockaddr fresh request es asking own rfl
    simp only [overtaking, List.mem_cons, PoolUse.take.injEq, List.not_mem_nil, reduceCtorEq, or_false,
      false_or] at he
    rcases he with ⟨-,-,-,rfl,rfl,rfl,rfl⟩ | ⟨-,-,-,rfl,rfl,rfl,rfl⟩ | ⟨-,-,-,rfl,rfl,rfl,rfl⟩ <;>
      exact ⟨created_getRequest 3,hasking,by decide +kernel,by decide +kernel⟩
  refine ⟨s,hrun,hlog,hpeer,shared_replies_uncrossed ?_ hrun⟩
  refine (hreads.and (Machine.along_of_forall htakes)).imp ?_
  rintro s e ⟨hread,htake⟩
  cases e with
  | take r sockaddr fresh request es asking own => exact htake r sockaddr fresh request es asking own rfl
  | read r world count e =>
    rintro peer hr u own - hcut
    simp only [ReadsAll, hr, Option.all_some, decide_eq_true_eq] at hread
    exact absurd hcut (not_lt.mpr hread)
  | fail r e => trivial
  | readable c e => trivial

end QkPack

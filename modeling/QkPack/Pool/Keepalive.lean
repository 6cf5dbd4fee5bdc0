import Mathlib.Data.List.Perm.Basic
import Mathlib.Logic.Function.Basic
import QkPack.Lib.Decimal
import QkPack.Lib.Machine

/-!
# The pool of idle connections

`ngx_http_upstream_keepalive_module` keeps the connections of finished requests in a fixed number of items. An item
is linked into the queue `cache` while its connection is idle and into the queue `free` otherwise. Connections are
numbered as in the table of the worker; a number that has been closed may be opened again.
-/

namespace QkPack
open Wire Function

/-- `ngx_http_upstream_keepalive_cache_t`. In the free queue an item keeps what it held last. -/
structure CacheItem where
  connection : Nat
  sockaddr : Bytes

/-- What the data of a connection points to, and with it whose handler its events are given to. -/
inductive ConnData where
  | item (i : Nat)
  | request (r : Nat)
deriving DecidableEq

/-- A connection that is open, with the address it was opened to. -/
structure Socket where
  address : Bytes
  data : ConnData
deriving DecidableEq

/-- `pc->connection` and `pc->sockaddr` of a request. -/
structure HeldPeer where
  connection : Nat
  sockaddr : Bytes
deriving DecidableEq

structure KeepalivePool where
  items : Nat → CacheItem
  cache : List Nat
  free : List Nat
  sockets : Nat → Option Socket
  peers : Nat → Option HeldPeer

/-- `ngx_memn2cmp`. -/
def memn2cmp : Bytes → Bytes → Int
  | [], [] => 0
  | [], _ :: _ => -1
  | _ :: _, [] => 1
  | a :: s, b :: t => if a = b then memn2cmp s t else (a.toNat : Int) - b.toNat

/-- What `recv` with `MSG_PEEK` gives on an idle connection. -/
inductive Peek where
  | again
  | error
  | eof
  | byte (b : UInt8)
deriving DecidableEq

/-- What `ngx_http_upstream_keepalive_close_handler` finds; `handled` is the success of `ngx_handle_read_event`. -/
structure ReadEvent where
  close : Bool
  timedout : Bool
  peek : Peek
  handled : Bool

/-- The handler goes to its label `close`. -/
def ReadEvent.closes (e : ReadEvent) : Bool :=
  e.close || e.timedout || !(e.peek == .again && e.handled)

/-- What `ngx_http_upstream_free_keepalive_peer` finds; `ready` is there if `c->read->ready`. -/
structure PeerEnd where
  failed : Bool
  readEof : Bool
  readError : Bool
  readTimedout : Bool
  writeError : Bool
  writeTimedout : Bool
  keepalive : Bool
  handled : Bool
  ready : Option ReadEvent

/-- The function does not go to its label `invalid`. -/
def PeerEnd.keeps (e : PeerEnd) : Bool :=
  !(e.failed || e.readEof || e.readError || e.readTimedout || e.writeError || e.writeTimedout) &&
    e.keepalive && e.handled

/-- A request asks for a peer at an address, where `fresh` is the connection `ngx_get_connection` would give; it
gives its peer back; an idle connection becomes readable. -/
inductive PoolEvent where
  | getPeer (r : Nat) (sockaddr : Bytes) (fresh : Nat)
  | freePeer (r : Nat) (e : PeerEnd)
  | readable (c : Nat) (e : ReadEvent)

/-- `ngx_http_upstream_init_keepalive`: every item in the free queue. -/
def initKeepalive (maxCached : Nat) : KeepalivePool where
  items := fun _ => ⟨0,[]⟩
  cache := []
  free := (List.range maxCached).foldl (fun free i => i :: free) []
  sockets := fun _ => none
  peers := fun _ => none

/-- The loop of `ngx_http_upstream_get_keepalive_peer`. -/
def KeepalivePool.search (k : KeepalivePool) (sockaddr : Bytes) : Option Nat :=
  k.cache.find? fun i => memn2cmp (k.items i).sockaddr sockaddr == 0

/-- `ngx_http_upstream_get_keepalive_peer`, and the connection that is opened when it finds none. The request then
enters itself as the data of its connection. -/
def getKeepalivePeer (k : KeepalivePool) (r : Nat) (sockaddr : Bytes) (fresh : Nat) : Option KeepalivePool :=
  if k.peers r ≠ none then none
  else match k.search sockaddr with
    | some i =>
      let c := (k.items i).connection
      some { k with
        cache := k.cache.erase i
        free := i :: k.free
        sockets := update k.sockets c ((k.sockets c).map fun s => { s with data := .request r })
        peers := update k.peers r (some ⟨c,sockaddr⟩) }
    | none =>
      if k.sockets fresh ≠ none then none
      else some { k with
        sockets := update k.sockets fresh (some ⟨sockaddr,.request r⟩)
        peers := update k.peers r (some ⟨fresh,sockaddr⟩) }

/-- `ngx_http_upstream_keepalive_close_handler`: the item goes from the queue it is in to the head of the free one. -/
def closeHandler (k : KeepalivePool) (c : Nat) (e : ReadEvent) : Option KeepalivePool :=
  match k.sockets c with
  | some ⟨_,.item i⟩ =>
    if e.closes then
      some { k with
        cache := k.cache.erase i
        free := i :: k.free.erase i
        sockets := update k.sockets c none }
    else some k
  | _ => none

/-- The item for a connection that is kept: the head of the free queue, or the last of the cache, whose connection
is closed. In two empty queues there is none. -/
def KeepalivePool.vacate (k : KeepalivePool) : Option (Nat × KeepalivePool) :=
  match k.free with
  | i :: free => some (i,{ k with free := free })
  | [] =>
    match k.cache.getLast? with
    | some i =>
      some (i,{ k with
        cache := k.cache.dropLast
        sockets := update k.sockets (k.items i).connection none })
    | none => none

/-- The connection of a request goes into the item, and the item to the head of the cache. -/
def KeepalivePool.save (k : KeepalivePool) (r : Nat) (peer : HeldPeer) (i : Nat) : KeepalivePool :=
  { k with
    items := update k.items i ⟨peer.connection,peer.sockaddr⟩
    cache := i :: k.cache
    sockets := update k.sockets peer.connection
      ((k.sockets peer.connection).map fun s => { s with data := .item i })
    peers := update k.peers r none }

def KeepalivePool.discard (k : KeepalivePool) (r : Nat) (peer : HeldPeer) : KeepalivePool :=
  { k with
    sockets := update k.sockets peer.connection none
    peers := update k.peers r none }

/-- `ngx_http_upstream_free_keepalive_peer`; a connection it does not take is closed by its caller. -/
def freeKeepalivePeer (k : KeepalivePool) (r : Nat) (e : PeerEnd) : Option KeepalivePool :=
  match k.peers r with
  | none => some k
  | some peer =>
    if e.keeps then
      k.vacate.bind fun (i,vacated) =>
        match e.ready with
        | none => some (vacated.save r peer i)
        | some ev => closeHandler (vacated.save r peer i) peer.connection ev
    else some (k.discard r peer)

def poolStep (k : KeepalivePool) : PoolEvent → Option KeepalivePool
  | .getPeer r sockaddr fresh => getKeepalivePeer k r sockaddr fresh
  | .freePeer r e => freeKeepalivePeer k r e
  | .readable c e => closeHandler k c e

/-- What holds of a pool of `n` items while `loose` is in neither queue: items and connections belong to each other,
requests and connections belong to each other, and no connection belongs to nobody. -/
structure PoolSound (n : Nat) (loose : List Nat) (k : KeepalivePool) : Prop where
  slots : (loose ++ (k.cache ++ k.free)).Perm (List.range n)
  idle : ∀ i ∈ k.cache, k.sockets (k.items i).connection = some ⟨(k.items i).sockaddr,.item i⟩
  held : ∀ r peer, k.peers r = some peer → k.sockets peer.connection = some ⟨peer.sockaddr,.request r⟩
  owned : ∀ c s, k.sockets c = some s →
    (∃ i ∈ k.cache, (k.items i).connection = c) ∨ ∃ r peer, k.peers r = some peer ∧ peer.connection = c

theorem memn2cmp_eq_zero_iff (s t : Bytes) : memn2cmp s t = 0 ↔ s = t := by
  induction s generalizing t with
  | nil => cases t <;> simp [memn2cmp]
  | cons a s ih =>
    cases t with
    | nil => simp [memn2cmp]
    | cons b t =>
      by_cases hab : a = b
      · simp [memn2cmp, hab, ih]
      · have hne : (a.toNat : Int) - b.toNat ≠ 0 := by
          intro hzero
          exact hab (UInt8.toNat_inj.mp (by omega))
        simp [memn2cmp, hab, hne]

theorem search_eq_some {k : KeepalivePool} {sockaddr : Bytes} {i : Nat} (h : k.search sockaddr = some i) :
    i ∈ k.cache ∧ (k.items i).sockaddr = sockaddr := by
  refine ⟨List.mem_of_find?_eq_some h,?_⟩
  have hcmp := List.find?_some h
  simpa [memn2cmp_eq_zero_iff] using hcmp

namespace PoolSound

variable {n : Nat} {loose : List Nat} {k : KeepalivePool}

theorem nodup (hk : PoolSound n loose k) : (loose ++ (k.cache ++ k.free)).Nodup :=
  hk.slots.nodup_iff.mpr List.nodup_range

theorem cache_nodup (hk : PoolSound n loose k) : k.cache.Nodup :=
  (List.nodup_append.mp (List.nodup_append.mp hk.nodup).2.1).1

theorem not_mem_free (hk : PoolSound n loose k) {i : Nat} (hi : i ∈ k.cache) : i ∉ k.free := by
  intro hfree
  exact (List.nodup_append.mp (List.nodup_append.mp hk.nodup).2.1).2.2 i hi i hfree rfl

theorem not_mem_cache {i : Nat} (hk : PoolSound n [i] k) : i ∉ k.cache := by
  intro hcache
  exact (List.nodup_cons.mp hk.nodup).1 (List.mem_append_left k.free hcache)

theorem item_inj (hk : PoolSound n loose k) {i j : Nat} (hi : i ∈ k.cache) (hj : j ∈ k.cache)
    (hij : (k.items i).connection = (k.items j).connection) : i = j := by
  have hboth := hk.idle i hi
  rw [hij, hk.idle j hj] at hboth
  exact (ConnData.item.inj (Socket.mk.inj (Option.some.inj hboth)).2).symm

theorem item_ne_held (hk : PoolSound n loose k) {i r : Nat} {peer : HeldPeer} (hi : i ∈ k.cache)
    (hr : k.peers r = some peer) : (k.items i).connection ≠ peer.connection := by
  intro hsame
  have hboth := hk.idle i hi
  rw [hsame, hk.held r peer hr] at hboth
  cases (Socket.mk.inj (Option.some.inj hboth)).2

theorem held_inj (hk : PoolSound n loose k) {r r' : Nat} {peer peer' : HeldPeer} (hr : k.peers r = some peer)
    (hr' : k.peers r' = some peer') (hsame : peer.connection = peer'.connection) : r = r' := by
  have hboth := hk.held r peer hr
  rw [hsame, hk.held r' peer' hr'] at hboth
  exact (ConnData.request.inj (Socket.mk.inj (Option.some.inj hboth)).2).symm

theorem mem_erase (hk : PoolSound n loose k) {i j : Nat} : j ∈ k.cache.erase i ↔ j ≠ i ∧ j ∈ k.cache :=
  hk.cache_nodup.mem_erase_iff

theorem hit (hk : PoolSound n [] k) {r i : Nat} (hr : k.peers r = none) (hi : i ∈ k.cache) :
    PoolSound n [] { k with
      cache := k.cache.erase i
      free := i :: k.free
      sockets := update k.sockets (k.items i).connection
        ((k.sockets (k.items i).connection).map fun s => { s with data := .request r })
      peers := update k.peers r (some ⟨(k.items i).connection,(k.items i).sockaddr⟩) } where
  slots := by
    have hback : (k.cache.erase i ++ i :: k.free).Perm (k.cache ++ k.free) :=
      List.perm_middle.trans ((List.perm_cons_erase hi).symm.append_right k.free)
    exact hback.trans hk.slots
  idle := by
    intro j hj
    obtain ⟨hji,hj⟩ := hk.mem_erase.mp hj
    have hne : (k.items j).connection ≠ (k.items i).connection := fun hsame => hji (hk.item_inj hj hi hsame)
    simp only [update_of_ne hne]
    exact hk.idle j hj
  held := by
    intro r' peer hr'
    by_cases hsame : r' = r
    · subst hsame
      simp only [update_self, Option.some.injEq] at hr'
      subst hr'
      simp only [update_self, hk.idle i hi, Option.map_some]
    · simp only [update_of_ne hsame] at hr'
      simp only [update_of_ne (hk.item_ne_held hi hr').symm]
      exact hk.held r' peer hr'
  owned := by
    intro c s hs
    by_cases hc : c = (k.items i).connection
    · exact .inr ⟨r,_,update_self r _ k.peers,hc.symm⟩
    · simp only [update_of_ne hc] at hs
      rcases hk.owned c s hs with ⟨j,hj,hjc⟩ | ⟨r',peer,hr',hpeer⟩
      · left
        refine ⟨j,hk.mem_erase.mpr ⟨?_,hj⟩,hjc⟩
        rintro rfl
        exact hc hjc.symm
      · right
        refine ⟨r',peer,?_,hpeer⟩
        have hne : r' ≠ r := by
          rintro rfl
          cases hr.symm.trans hr'
        simp only [update_of_ne hne, hr']

theorem miss (hk : PoolSound n [] k) {r fresh : Nat} (sockaddr : Bytes) (hr : k.peers r = none)
    (hfresh : k.sockets fresh = none) :
    PoolSound n [] { k with
      sockets := update k.sockets fresh (some ⟨sockaddr,.request r⟩)
      peers := update k.peers r (some ⟨fresh,sockaddr⟩) } where
  slots := hk.slots
  idle := by
    intro i hi
    have hne : (k.items i).connection ≠ fresh := by
      rintro rfl
      cases hfresh.symm.trans (hk.idle i hi)
    simp only [update_of_ne hne]
    exact hk.idle i hi
  held := by
    intro r' peer hr'
    by_cases hsame : r' = r
    · subst hsame
      simp only [update_self, Option.some.injEq] at hr'
      subst hr'
      simp only [update_self]
    · simp only [update_of_ne hsame] at hr'
      have hne : peer.connection ≠ fresh := by
        rintro rfl
        cases hfresh.symm.trans (hk.held r' peer hr')
      simp only [update_of_ne hne]
      exact hk.held r' peer hr'
  owned := by
    intro c s hs
    by_cases hc : c = fresh
    · exact .inr ⟨r,_,update_self r _ k.peers,hc.symm⟩
    · simp only [update_of_ne hc] at hs
      rcases hk.owned c s hs with hidle | ⟨r',peer,hr',hpeer⟩
      · exact .inl hidle
      · right
        refine ⟨r',peer,?_,hpeer⟩
        have hne : r' ≠ r := by
          rintro rfl
          cases hr.symm.trans hr'
        simp only [update_of_ne hne, hr']

theorem unlink (hk : PoolSound n [] k) {i : Nat} {cache : List Nat} (hperm : (i :: cache).Perm k.cache) :
    PoolSound n [i] { k with
      cache := cache
      sockets := update k.sockets (k.items i).connection none } := by
  have hi : i ∈ k.cache := hperm.subset List.mem_cons_self
  have hmem : ∀ j ∈ cache, j ≠ i ∧ j ∈ k.cache := by
    intro j hj
    refine ⟨?_,hperm.subset (List.mem_cons_of_mem i hj)⟩
    rintro rfl
    exact (List.nodup_cons.mp (hperm.nodup_iff.mpr hk.cache_nodup)).1 hj
  refine ⟨?_,?_,?_,?_⟩
  · exact (hperm.append_right k.free).trans hk.slots
  · intro j hj
    obtain ⟨hji,hj⟩ := hmem j hj
    have hne : (k.items j).connection ≠ (k.items i).connection := fun hsame => hji (hk.item_inj hj hi hsame)
    simp only [update_of_ne hne]
    exact hk.idle j hj
  · intro r peer hr
    simp only [update_of_ne (hk.item_ne_held hi hr).symm]
    exact hk.held r peer hr
  · intro c s hs
    by_cases hc : c = (k.items i).connection
    · subst hc
      simp only [update_self] at hs
      cases hs
    · simp only [update_of_ne hc] at hs
      rcases hk.owned c s hs with ⟨j,hj,hjc⟩ | hheld
      · left
        refine ⟨j,?_,hjc⟩
        rcases List.mem_cons.mp (hperm.symm.subset hj) with rfl | hj
        · exact absurd hjc.symm hc
        · exact hj
      · exact .inr hheld

theorem relink {i : Nat} (hk : PoolSound n [i] k) : PoolSound n [] { k with free := i :: k.free } :=
  ⟨List.perm_middle.trans hk.slots,hk.idle,hk.held,hk.owned⟩

theorem vacate (hk : PoolSound n [] k) {i : Nat} {vacated : KeepalivePool}
    (h : k.vacate = some (i,vacated)) : PoolSound n [i] vacated ∧ vacated.peers = k.peers := by
  unfold KeepalivePool.vacate at h
  split at h
  · rename_i j free hfree
    cases h
    refine ⟨⟨?_,hk.idle,hk.held,hk.owned⟩,rfl⟩
    have hslots := hk.slots
    rw [hfree] at hslots
    have hfront : (i :: (k.cache ++ free)).Perm (k.cache ++ i :: free) := List.perm_middle.symm
    exact hfront.trans hslots
  · split at h
    · rename_i j hlast
      cases h
      refine ⟨hk.unlink ?_,rfl⟩
      obtain ⟨init,hinit⟩ := List.getLast?_eq_some_iff.mp hlast
      rw [hinit, List.dropLast_concat]
      exact (List.perm_append_singleton i init).symm
    · cases h

theorem vacate_isSome (hk : PoolSound n [] k) (hn : 0 < n) : k.vacate.isSome := by
  unfold KeepalivePool.vacate
  split
  · rfl
  · rename_i hfree
    split
    · rfl
    · rename_i hlast
      have hlength := hk.slots.length_eq
      rw [hfree, List.getLast?_eq_none_iff.mp hlast, List.length_range] at hlength
      exact absurd hlength.symm hn.ne'

theorem save {r i : Nat} {peer : HeldPeer} (hk : PoolSound n [i] k) (hr : k.peers r = some peer) :
    PoolSound n [] (k.save r peer i) where
  slots := hk.slots
  idle := by
    intro j hj
    rcases List.mem_cons.mp hj with rfl | hold
    · simp only [KeepalivePool.save, update_self, hk.held r peer hr, Option.map_some]
    · have hne : j ≠ i := fun hji => hk.not_mem_cache (hji ▸ hold)
      simp only [KeepalivePool.save, update_of_ne hne, update_of_ne (hk.item_ne_held hold hr)]
      exact hk.idle j hold
  held := by
    intro r' peer' hr'
    have hne : r' ≠ r := by
      rintro rfl
      simp only [KeepalivePool.save, update_self] at hr'
      cases hr'
    simp only [KeepalivePool.save, update_of_ne hne] at hr' ⊢
    rw [update_of_ne fun hsame => hne (hk.held_inj hr' hr hsame)]
    exact hk.held r' peer' hr'
  owned := by
    intro c s hs
    by_cases hc : c = peer.connection
    · left
      refine ⟨i,List.mem_cons_self,?_⟩
      simp only [KeepalivePool.save, update_self, hc]
    · simp only [KeepalivePool.save, update_of_ne hc] at hs
      rcases hk.owned c s hs with ⟨j,hj,hjc⟩ | ⟨r',peer',hr',hpeer⟩
      · left
        have hne : j ≠ i := by
          rintro rfl
          exact hk.not_mem_cache hj
        refine ⟨j,List.mem_cons_of_mem i hj,?_⟩
        simp only [KeepalivePool.save, update_of_ne hne, hjc]
      · right
        refine ⟨r',peer',?_,hpeer⟩
        have hne : r' ≠ r := by
          rintro rfl
          cases hr.symm.trans hr'
          exact hc hpeer.symm
        simp only [KeepalivePool.save, update_of_ne hne, hr']

theorem discard {r : Nat} {peer : HeldPeer} (hk : PoolSound n [] k) (hr : k.peers r = some peer) :
    PoolSound n [] (k.discard r peer) where
  slots := hk.slots
  idle := by
    intro i hi
    simp only [KeepalivePool.discard, update_of_ne (hk.item_ne_held hi hr)]
    exact hk.idle i hi
  held := by
    intro r' peer' hr'
    have hne : r' ≠ r := by
      rintro rfl
      simp only [KeepalivePool.discard, update_self] at hr'
      cases hr'
    simp only [KeepalivePool.discard, update_of_ne hne] at hr' ⊢
    rw [update_of_ne fun hsame => hne (hk.held_inj hr' hr hsame)]
    exact hk.held r' peer' hr'
  owned := by
    intro c s hs
    have hc : c ≠ peer.connection := by
      rintro rfl
      simp only [KeepalivePool.discard, update_self] at hs
      cases hs
    simp only [KeepalivePool.discard, update_of_ne hc] at hs
    rcases hk.owned c s hs with hidle | ⟨r',peer',hr',hpeer⟩
    · exact .inl hidle
    · right
      refine ⟨r',peer',?_,hpeer⟩
      have hne : r' ≠ r := by
        rintro rfl
        cases hr.symm.trans hr'
        exact hc hpeer.symm
      simp only [KeepalivePool.discard, update_of_ne hne, hr']

theorem closeHandler_cases (hk : PoolSound n [] k) {c : Nat} {e : ReadEvent} {k' : KeepalivePool}
    (h : closeHandler k c e = some k') :
    (e.closes = false ∧ k' = k) ∨
      e.closes = true ∧ ∃ i ∈ k.cache, (k.items i).connection = c ∧
        k' = { k with
          cache := k.cache.erase i
          free := i :: k.free
          sockets := update k.sockets c none } := by
  unfold closeHandler at h
  split at h
  · rename_i address i hdata
    have hi : i ∈ k.cache ∧ (k.items i).connection = c := by
      rcases hk.owned c _ hdata with ⟨j,hj,rfl⟩ | ⟨r,peer,hr,rfl⟩
      · rw [hk.idle j hj] at hdata
        cases hdata
        exact ⟨hj,rfl⟩
      · cases (hk.held r peer hr).symm.trans hdata
    split at h
    · rename_i hcloses
      cases h
      refine .inr ⟨hcloses,i,hi.1,hi.2,?_⟩
      rw [List.erase_of_not_mem (hk.not_mem_free hi.1)]
    · rename_i hcloses
      cases h
      exact .inl ⟨Bool.eq_false_iff.mpr hcloses,rfl⟩
  · cases h

theorem closed (hk : PoolSound n [] k) {c : Nat} {e : ReadEvent} {k' : KeepalivePool}
    (h : closeHandler k c e = some k') : PoolSound n [] k' := by
  rcases hk.closeHandler_cases h with ⟨-,rfl⟩ | ⟨-,i,hi,rfl,rfl⟩
  · exact hk
  · exact (hk.unlink (List.perm_cons_erase hi).symm).relink

theorem init (n : Nat) : PoolSound n [] (initKeepalive n) := by
  refine ⟨?_,nofun,nofun,nofun⟩
  have hfree : (initKeepalive n).free = (List.range n).reverse := by
    simp [initKeepalive]
  rw [hfree]
  exact List.reverse_perm _

theorem step {e : PoolEvent} {k' : KeepalivePool} (hk : PoolSound n [] k) (h : poolStep k e = some k') :
    PoolSound n [] k' := by
  cases e with
  | getPeer r sockaddr fresh =>
    simp only [poolStep, getKeepalivePeer] at h
    split at h
    · cases h
    · rename_i hr
      have hr := not_not.mp hr
      split at h
      · rename_i i hsearch
        obtain ⟨hi,rfl⟩ := search_eq_some hsearch
        cases h
        exact hk.hit hr hi
      · split at h
        · cases h
        · rename_i hfresh
          cases h
          exact hk.miss sockaddr hr (not_not.mp hfresh)
  | freePeer r e =>
    simp only [poolStep, freeKeepalivePeer] at h
    split at h
    · cases h
      exact hk
    · rename_i peer hr
      split at h
      · obtain ⟨⟨i,vacated⟩,hvacate,h⟩ := Option.bind_eq_some_iff.mp h
        obtain ⟨hloose,hpeers⟩ := hk.vacate hvacate
        have hsaved := hloose.save (hpeers ▸ hr)
        cases hready : e.ready with
        | none =>
          rw [hready] at h
          cases h
          exact hsaved
        | some ev =>
          rw [hready] at h
          exact hsaved.closed h
      · cases h
        exact hk.discard hr
  | readable c e => exact hk.closed h

end PoolSound

end QkPack

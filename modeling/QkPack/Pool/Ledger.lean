import Mathlib.Data.List.Nodup
import QkPack.Pool.Keepalive

/-!
# What the pool is for

A ledger of the idle connections, the one that was kept last in front, with room for a fixed number of them. The
items and queues of `ngx_http_upstream_keepalive_module` are one way to keep it.
-/

namespace QkPack
open Wire Function

structure Ledger where
  idle : List HeldPeer
  opened : Nat → Option Bytes
  peers : Nat → Option HeldPeer

def Ledger.empty : Ledger := ⟨[],fun _ => none,fun _ => none⟩

def Ledger.close (l : Ledger) (c : Nat) : Ledger :=
  { l with idle := l.idle.filter fun peer => peer.connection ≠ c, opened := update l.opened c none }

/-- Room for one more within the capacity: the connections kept longest ago are closed. -/
def Ledger.room (l : Ledger) (capacity : Nat) : Ledger :=
  { l with
    idle := l.idle.take (capacity - 1)
    opened := (l.idle.drop (capacity - 1)).foldl (fun opened peer => update opened peer.connection none) l.opened }

/-- A request takes the connection to its address that was kept last, or opens one. -/
def Ledger.get (l : Ledger) (r : Nat) (sockaddr : Bytes) (fresh : Nat) : Option Ledger :=
  if l.peers r ≠ none then none
  else match l.idle.find? fun peer => peer.sockaddr = sockaddr with
    | some peer => some { l with idle := l.idle.erase peer, peers := update l.peers r (some peer) }
    | none =>
      if l.opened fresh ≠ none then none
      else some { l with
        opened := update l.opened fresh (some sockaddr)
        peers := update l.peers r (some ⟨fresh,sockaddr⟩) }

def Ledger.keep (l : Ledger) (capacity r : Nat) (peer : HeldPeer) : Ledger :=
  { l.room capacity with idle := peer :: (l.room capacity).idle, peers := update l.peers r none }

/-- A request that holds a connection puts it in front of the others, or closes it. -/
def Ledger.free (l : Ledger) (capacity r : Nat) (e : PeerEnd) : Ledger :=
  match l.peers r with
  | none => l
  | some peer =>
    if e.keeps then
      if e.ready.any ReadEvent.closes then (l.keep capacity r peer).close peer.connection
      else l.keep capacity r peer
    else { l.close peer.connection with peers := update l.peers r none }

def ledgerStep (capacity : Nat) (l : Ledger) : PoolEvent → Option Ledger
  | .getPeer r sockaddr fresh => l.get r sockaddr fresh
  | .freePeer r e => some (l.free capacity r e)
  | .readable c e =>
    if l.idle.any fun peer => peer.connection = c then some (if e.closes then l.close c else l) else none

def CacheItem.peer (item : CacheItem) : HeldPeer := ⟨item.connection,item.sockaddr⟩

def KeepalivePool.ledger (k : KeepalivePool) : Ledger where
  idle := k.cache.map fun i => (k.items i).peer
  opened := Option.map Socket.address ∘ k.sockets
  peers := k.peers

section Queues

variable {n : Nat} {loose : List Nat} {k : KeepalivePool}

theorem opened_update_data (sockets : Nat → Option Socket) (c : Nat) (data : ConnData) :
    Option.map Socket.address ∘ update sockets c ((sockets c).map fun s => { s with data := data }) =
      Option.map Socket.address ∘ sockets := by
  rw [comp_update]
  have hsame : ((sockets c).map fun s => { s with data := data }).map Socket.address =
      (Option.map Socket.address ∘ sockets) c := by
    cases hc : sockets c <;> simp [hc]
  rw [hsame, update_eq_self]

theorem ledger_find (k : KeepalivePool) (sockaddr : Bytes) :
    (k.ledger.idle.find? fun peer => peer.sockaddr = sockaddr) =
      (k.search sockaddr).map fun i => (k.items i).peer := by
  rw [KeepalivePool.ledger, List.find?_map]
  congr 2
  funext i
  rw [Bool.eq_iff_iff]
  simp [CacheItem.peer, memn2cmp_eq_zero_iff]

theorem PoolSound.map_erase (hk : PoolSound n loose k) {i : Nat} (hi : i ∈ k.cache) :
    (k.cache.erase i).map (fun j => (k.items j).peer) =
      (k.ledger.idle.filter fun peer => peer.connection ≠ (k.items i).connection) := by
  rw [KeepalivePool.ledger, List.filter_map, hk.cache_nodup.erase_eq_filter]
  congr 1
  apply List.filter_congr
  intro j hj
  have hiff : j ≠ i ↔ (k.items j).connection ≠ (k.items i).connection := by
    refine not_congr ⟨?_,hk.item_inj hj hi⟩
    rintro rfl
    rfl
  rw [Bool.eq_iff_iff]
  simpa [CacheItem.peer] using hiff

theorem PoolSound.ledger_unlink (hk : PoolSound n loose k) {i : Nat} (hi : i ∈ k.cache) (free : List Nat) :
    KeepalivePool.ledger { k with
      cache := k.cache.erase i
      free := free
      sockets := update k.sockets (k.items i).connection none } =
        k.ledger.close (k.items i).connection := by
  have hidle := hk.map_erase hi
  simp only [KeepalivePool.ledger, Ledger.close, comp_update, Option.map_none] at hidle ⊢
  rw [hidle]

theorem PoolSound.ledger_vacate (hk : PoolSound n [] k) {i : Nat} {vacated : KeepalivePool}
    (h : k.vacate = some (i,vacated)) : vacated.ledger = k.ledger.room n := by
  have hlength := hk.slots.length_eq
  simp only [List.nil_append, List.length_append, List.length_range] at hlength
  unfold KeepalivePool.vacate at h
  split at h
  · -- a free item is left, so that the cache is not full
    rename_i j free hfree
    cases h
    rw [hfree, List.length_cons] at hlength
    have hshort : k.ledger.idle.length ≤ n - 1 := by
      simp only [KeepalivePool.ledger, List.length_map]
      omega
    simp only [Ledger.room, List.take_of_length_le hshort, List.drop_of_length_le hshort, List.foldl_nil]
    rfl
  · split at h
    · rename_i j hlast
      cases h
      obtain ⟨init,hinit⟩ := List.getLast?_eq_some_iff.mp hlast
      have hfree : k.free.length = 0 := by simp_all
      have hn : n - 1 = (init.map fun j => (k.items j).peer).length := by
        rw [hinit, List.length_append, List.length_singleton] at hlength
        rw [List.length_map]
        omega
      have hidle : k.ledger.idle = (init.map fun j => (k.items j).peer) ++ [(k.items i).peer] := by
        simp [KeepalivePool.ledger, hinit]
      simp only [Ledger.room, hidle, hn, List.take_left', List.drop_left', List.foldl_cons, List.foldl_nil]
      simp only [KeepalivePool.ledger, hinit, List.dropLast_concat, comp_update, Option.map_none]
      rfl
    · cases h

theorem PoolSound.ledger_save {r i : Nat} {peer : HeldPeer} (hk : PoolSound n [i] k)  :
    (k.save r peer i).ledger =
      { k.ledger with idle := peer :: k.ledger.idle, peers := update k.ledger.peers r none } := by
  have hidle : (k.cache.map fun j => (update k.items i ⟨peer.connection,peer.sockaddr⟩ j).peer) =
      k.cache.map fun j => (k.items j).peer := by
    apply List.map_congr_left
    intro j hj
    have hne : j ≠ i := fun hji => hk.not_mem_cache (hji ▸ hj)
    rw [update_of_ne hne]
  simp only [KeepalivePool.ledger, KeepalivePool.save, opened_update_data, List.map_cons, update_self, hidle]
  rfl

theorem PoolSound.ledger_discard {r : Nat} {peer : HeldPeer} (hk : PoolSound n [] k) (hr : k.peers r = some peer) :
    (k.discard r peer).ledger = { k.ledger.close peer.connection with peers := update k.ledger.peers r none } := by
  have hidle : (k.ledger.idle.filter fun idle => idle.connection ≠ peer.connection) = k.ledger.idle := by
    rw [List.filter_eq_self]
    intro idle hmem
    obtain ⟨i,hi,rfl⟩ := List.mem_map.mp hmem
    exact decide_eq_true (hk.item_ne_held hi hr)
  simp only [Ledger.close, hidle]
  simp only [KeepalivePool.ledger, KeepalivePool.discard, comp_update, Option.map_none]

theorem PoolSound.ledger_closeHandler (hk : PoolSound n [] k) (c : Nat) (e : ReadEvent) :
    (closeHandler k c e).map KeepalivePool.ledger = ledgerStep n k.ledger (.readable c e) := by
  have hany : (k.ledger.idle.any fun peer => peer.connection = c) = true ↔
      ∃ i ∈ k.cache, (k.items i).connection = c := by
    simp [KeepalivePool.ledger, CacheItem.peer]
  simp only [ledgerStep, hany]
  split
  · rename_i hidle
    obtain ⟨i,hi,rfl⟩ := hidle
    simp only [closeHandler, hk.idle i hi]
    split
    · rw [List.erase_of_not_mem (hk.not_mem_free hi), Option.map_some, hk.ledger_unlink hi]
    · rfl
  · rename_i hidle
    unfold closeHandler
    split
    · rename_i address i hdata
      rcases hk.owned c _ hdata with hcache | ⟨r,peer,hr,rfl⟩
      · exact absurd hcache hidle
      · cases (hk.held r peer hr).symm.trans hdata
    · rfl

theorem PoolSound.ledger_get (hk : PoolSound n [] k) (r : Nat) (sockaddr : Bytes) (fresh : Nat) :
    (getKeepalivePeer k r sockaddr fresh).map KeepalivePool.ledger = k.ledger.get r sockaddr fresh := by
  unfold getKeepalivePeer Ledger.get
  have hpeers : k.ledger.peers r = k.peers r := rfl
  rw [ledger_find, hpeers]
  split
  · rfl
  · cases hsearch : k.search sockaddr with
    | some i =>
      obtain ⟨hi,rfl⟩ := search_eq_some hsearch
      have hnodup : k.ledger.idle.Nodup := by
        refine hk.cache_nodup.map_on ?_
        intro a ha b hb hab
        exact hk.item_inj ha hb (HeldPeer.mk.inj hab).1
      have hidle : (k.cache.erase i).map (fun j => (k.items j).peer) =
          k.ledger.idle.erase (k.items i).peer := by
        rw [hk.map_erase hi, hnodup.erase_eq_filter]
        apply List.filter_congr
        intro peer hpeer
        obtain ⟨j,hj,rfl⟩ := List.mem_map.mp hpeer
        have hiff : (k.items j).connection = (k.items i).connection ↔ (k.items j).peer = (k.items i).peer := by
          refine ⟨fun hsame => ?_,fun hsame => (HeldPeer.mk.inj hsame).1⟩
          rw [hk.item_inj hj hi hsame]
        rw [Bool.eq_iff_iff, decide_eq_true_eq, bne_iff_ne]
        exact not_congr hiff
      simp only [Option.map_some, ← hidle]
      simp only [KeepalivePool.ledger, opened_update_data]
      rfl
    | none =>
      have hopened : k.ledger.opened fresh ≠ none ↔ k.sockets fresh ≠ none := by
        simp [KeepalivePool.ledger]
      simp only [Option.map_none, hopened]
      split
      · rfl
      · simp only [KeepalivePool.ledger, comp_update, Option.map_some]

theorem PoolSound.ledger_free (hk : PoolSound n [] k) (hn : 0 < n) (r : Nat) (e : PeerEnd) :
    (freeKeepalivePeer k r e).map KeepalivePool.ledger = some (k.ledger.free n r e) := by
  unfold freeKeepalivePeer Ledger.free
  have hpeers : k.ledger.peers r = k.peers r := rfl
  rw [hpeers]
  cases hr : k.peers r with
  | none => rfl
  | some peer =>
    dsimp only
    split
    · obtain ⟨⟨i,vacated⟩,hvacate⟩ := Option.isSome_iff_exists.mp (hk.vacate_isSome hn)
      obtain ⟨hloose,hsame⟩ := hk.vacate hvacate
      have hheld : vacated.peers r = some peer := hsame ▸ hr
      have hkept : (vacated.save r peer i).ledger = k.ledger.keep n r peer := by
        rw [hloose.ledger_save, hk.ledger_vacate hvacate]
        rfl
      rw [hvacate, Option.bind_some]
      cases e.ready with
      | none => simp [hkept]
      | some ev =>
        dsimp only
        rw [(hloose.save hheld).ledger_closeHandler, hkept]
        simp only [ledgerStep, Ledger.keep, List.any_cons, decide_true, Bool.true_or, if_true, Option.any_some]
    · rw [Option.map_some, hk.ledger_discard hr]

/-- Every operation of the module is the one of the ledger. -/
theorem PoolSound.map_poolStep (hk : PoolSound n [] k) (hn : 0 < n) (e : PoolEvent) :
    (poolStep k e).map KeepalivePool.ledger = ledgerStep n k.ledger e := by
  cases e with
  | getPeer r sockaddr fresh => exact hk.ledger_get r sockaddr fresh
  | freePeer r e => exact hk.ledger_free hn r e
  | readable c e => exact hk.ledger_closeHandler c e

end Queues

/-- After any requests and events, the queues stand for the ledger: a request gets the connection to its address that
was kept last, a connection that is kept goes in front, and the one kept longest ago makes room for it. No item of the
pool is lost or in both queues. -/
theorem pool_refines_ledger (n : Nat) (es : List PoolEvent) :
    (Machine.run poolStep (initKeepalive (n + 1)) es).map KeepalivePool.ledger =
        Machine.run (ledgerStep (n + 1)) Ledger.empty es ∧
      ∀ k ∈ Machine.run poolStep (initKeepalive (n + 1)) es, (k.cache ++ k.free).Perm (List.range (n + 1)) := by
  constructor
  · exact Machine.map_run (I := PoolSound (n + 1) []) PoolSound.step (fun hk => hk.map_poolStep n.succ_pos _)
      (PoolSound.init (n + 1)) es
  · intro k hrun
    exact (Machine.always_run PoolSound.step (PoolSound.init (n + 1)) hrun).slots

/-- Who may use a connection of the worker. -/
structure Exclusive (n : Nat) (k : KeepalivePool) : Prop where
  items : k.cache.length + k.free.length = n
  idle_open : ∀ i ∈ k.cache,
    (k.sockets (k.items i).connection).map Socket.address = some (k.items i).sockaddr
  held_open : ∀ r peer, k.peers r = some peer →
    (k.sockets peer.connection).map Socket.address = some peer.sockaddr
  idle_once : ∀ i ∈ k.cache, ∀ j ∈ k.cache, (k.items i).connection = (k.items j).connection → i = j
  idle_unheld : ∀ i ∈ k.cache, ∀ r peer, k.peers r = some peer → (k.items i).connection ≠ peer.connection
  held_once : ∀ r r' peer peer', k.peers r = some peer → k.peers r' = some peer' →
    peer.connection = peer'.connection → r = r'
  none_lost : ∀ c, k.sockets c ≠ none →
    (∃ i ∈ k.cache, (k.items i).connection = c) ∨ ∃ r peer, k.peers r = some peer ∧ peer.connection = c

theorem PoolSound.exclusive {n : Nat} {k : KeepalivePool} (hk : PoolSound n [] k) : Exclusive n k where
  items := by
    have hlength := hk.slots.length_eq
    rwa [List.nil_append, List.length_append, List.length_range] at hlength
  idle_open := by
    intro i hi
    rw [hk.idle i hi, Option.map_some]
  held_open := by
    intro r peer hr
    rw [hk.held r peer hr, Option.map_some]
  idle_once := fun i hi j hj => hk.item_inj hi hj
  idle_unheld := fun i hi r peer hr => hk.item_ne_held hi hr
  held_once := fun r r' peer peer' => hk.held_inj
  none_lost := by
    intro c hc
    obtain ⟨s,hs⟩ := Option.ne_none_iff_exists'.mp hc
    exact hk.owned c s hs

/-- In every interleaving of requests and events an open connection is either idle in one item or used by one
request, it leads to the address its item or request names, and none is open that neither has. -/
theorem connections_exclusive {n : Nat} {es : List PoolEvent} {k : KeepalivePool}
    (hrun : Machine.run poolStep (initKeepalive n) es = some k) : Exclusive n k :=
  (Machine.always_run PoolSound.step (PoolSound.init n) hrun).exclusive

def endedWell : PeerEnd := ⟨false,false,false,false,false,false,true,true,none⟩

/-- Two requests to one node at a time, with one item; the second connection takes the place of the first. -/
def evicting : List PoolEvent :=
  [.getPeer 0 [1] 5,.getPeer 1 [1] 6,.freePeer 0 endedWell,.freePeer 1 endedWell,.getPeer 2 [1] 5]

theorem connections_exclusive_evicting :
    ∃ k, Machine.run poolStep (initKeepalive 1) evicting = some k ∧
      k.peers 2 = some ⟨6,[1]⟩ ∧ k.sockets 5 = none ∧ Exclusive 1 k := by
  have hend : (Machine.run poolStep (initKeepalive 1) evicting).map (fun k => (k.peers 2,k.sockets 5)) =
      some (some ⟨6,[1]⟩,none) := by
    decide
  obtain ⟨k,hrun,hk⟩ := Option.map_eq_some_iff.mp hend
  obtain ⟨hpeer,hclosed⟩ := Prod.mk.inj hk
  exact ⟨k,hrun,hpeer,hclosed,connections_exclusive hrun⟩

end QkPack

import QkPack.Core.SingleCommands
import QkPack.Core.StoredItems

/-!
# Tenants on one key space

The store of every tenant is kept in the key space of the cluster, under its namespace of two bytes in front of the key.
Every command on a single key is answered as the store of its tenant answers it, and changes no more than that key.
-/

namespace QkPack
open Wire CString Resp Json KeyServer

section Service

variable (proto : RedisProto) (backupServer : Bytes) (printDouble : Double → Bytes)
variable (server : Server) (shas : QkPack.Script → Bytes) (t : Int)

/-- Whenever the reply is read by a request for this command, the response shows the answer. -/
structure Conveys (request : Request) (key : Bytes) (reply : Reply) (a : Answer) : Prop where
  noInnerNull : NoInnerNull reply
  size : (encode reply).length ≤ 2 ^ 30
  answers : ∀ (cost : Int) (stack : Nat → Bytes) (shared : Shared) (r : Request), Unanswered r →
    r.commandType = request.commandType → r.key = request.key → r.vectorMbs = request.vectorMbs →
      r.responseBuffer = encode reply → ∃ doc : Doc,
        AnsweredWith proto backupServer cost printDouble stack shared r doc ∧ Shows cost key a (gen true doc.calls)

/-- The encoder builds a command; the server changes no more than the key, which is then kept as it should be, and its
reply gives the answer. -/
def Handles (scripts : ScriptCache) (request : Request) (ns key : Bytes) (result : Answer × Option Held)
    (store : Store) : Prop :=
  ∃ argv reply item cache, EncodedAs proto scripts request argv cache ∧
    server.exec store argv = (reply,Function.update store (ns ++ key) item) ∧
    Conveys proto backupServer printDouble request key reply result.1 ∧ HeldAs proto t result.2 item ∧
    CacheOf shas cache

/-- A line that is shown as it came, with code 5000. -/
structure Refusal (l : Line) : Prop where
  plain : PlainError l
  length : l.bytes.length ≤ 2 ^ 20
  utf8 : IsUtf8 l.bytes

theorem refusal_wrongType : Refusal wrongType :=
  ⟨plainError_of_head (.inr rfl),by decide,isUtf8_of_ascii (by decide)⟩

theorem refusal_failed (lua : Lua) {l : Line} (hhead : l.bytes.head? = some 69 ∨ l.bytes.head? = some 87) :
    Refusal (lua.failed l) := by
  refine ⟨plainError_of_head ?_,lua.failed_length l,lua.failed_utf8 l⟩
  rcases lua.failed_cases l with ⟨rest,hrest⟩ | ⟨rest,hrest⟩
  · rw [← hrest]
    exact .inl rfl
  · rw [← hrest]
    cases hl : l.bytes with
    | nil => simp [hl] at hhead
    | cons c bytes => simpa [hl] using hhead

variable {proto backupServer printDouble server shas t}
variable {request : Request} {ns key : Bytes} {argv : List Bytes} {store : Store} {scripts cache : ScriptCache}
variable {held : Option Held}

theorem encElem_length_le (e : Elem) : (encElem e).length ≤ 2 ^ 30 := by
  cases e with
  | none => decide
  | some b =>
    have hsize := b.size_le
    have hdigits := decimal_length_le (n := b.bytes.length) (k := 10) (by norm_num) (by omega)
    rw [encElem_some, encBulk_length]
    omega

section Replies

variable (hencode : EncodedAs proto scripts request argv cache) (hcache : CacheOf shas cache)

theorem conveys_shown {reply : Reply} {a : Answer} {ms : List (Bytes × Doc)} (hnull : NoInnerNull reply)
    (hsize : (encode reply).length ≤ 2 ^ 30) (hshown : ShownMembers key a ms)
    (hanswer : ∀ (cost : Int) (stack : Nat → Bytes) (shared : Shared) (r : Request), Unanswered r →
      r.commandType = request.commandType → r.key = request.key → r.vectorMbs = request.vectorMbs →
        r.responseBuffer = encode reply →
          AnsweredWith proto backupServer cost printDouble stack shared r (answerDoc cost .ok [] ms)) :
    Conveys proto backupServer printDouble request key reply a where
  noInnerNull := hnull
  size := hsize
  answers cost stack shared r hunanswered hcommand hkey hmbs hreply :=
    ⟨_,hanswer cost stack shared r hunanswered hcommand hkey hmbs hreply,.inl ⟨ms,hshown,rfl⟩⟩

theorem conveys_refused {l : Line} (hl : Refusal l) :
    Conveys proto backupServer printDouble request key (.error l) .refused where
  noInnerNull := trivial
  size := by
    have hlength := hl.length
    simp only [encode, List.length_cons, List.length_append, crlf_length]
    omega
  answers cost stack shared r hunanswered _ _ _ hreply :=
    ⟨_,answered_error proto backupServer cost printDouble stack shared hunanswered hl.plain hreply,
      .inr ⟨rfl,l.bytes,hl.utf8,rfl⟩⟩

theorem conveys_count {n : Int} (hcommand : request.commandType ∈ integerCommands) (hn : -2 ^ 31 ≤ n ∧ n < 2 ^ 31) :
    Conveys proto backupServer printDouble request key (.integer n) (.count n) := by
  have hlength := intText_length_le hn
  refine conveys_shown trivial ?_ rfl ?_
  · simp only [encode, List.length_cons, List.length_append, crlf_length]
    omega
  · intro cost stack shared r hunanswered hsame _ _ hreply
    exact answered_count proto backupServer cost printDouble stack shared hunanswered (hsame ▸ hcommand) hn hreply

include hencode hcache

theorem handles_refused {l : Line} (hexec : server.exec store argv = (.error l,store)) (hl : Refusal l)
    (hheld : HeldAs proto t held (store (ns ++ key))) :
    Handles proto backupServer printDouble server shas t scripts request ns key (.refused,held) store := by
  refine ⟨argv,_,store (ns ++ key),cache,hencode,?_,conveys_refused hl,hheld,hcache⟩
  rw [hexec, Function.update_eq_self]

theorem handles_count {n : Int} {item : Option Item}
    (hexec : server.exec store argv = (.integer n,Function.update store (ns ++ key) item))
    (hcommand : request.commandType ∈ integerCommands) (hn : -2 ^ 31 ≤ n ∧ n < 2 ^ 31)
    (hheld : HeldAs proto t held item) :
    Handles proto backupServer printDouble server shas t scripts request ns key (.count n,held) store :=
  ⟨argv,_,item,cache,hencode,hexec,conveys_count hcommand hn,hheld,hcache⟩

end Replies

section Commands

variable {lua : Lua} (hs : Scripted proto server lua shas) (hcache : CacheOf shas scripts)
variable (hr : Addressed request ns key)
variable (hheld : HeldAs proto t held (store (ns ++ key)))

section Plain

include hcache hr

theorem handles_set {v : Value} (hcommand : request.commandType = .set) (hvalue : request.value = v.bytes)
    (hplain : v.bytes ≠ snappyWord) :
    Handles proto backupServer printDouble server shas t scripts request ns key
      ((TenantCommand.set v).apply held) store := by
  have hexec : server.exec store [text "SETEX",ns ++ key,toString32 request.exptime,
      (storedBulk proto request.compressThreshold v).bytes] = (.status (line "OK" (by decide)),
        Function.update store (ns ++ key) (some (.string (storedBulk proto request.compressThreshold v)))) := by
    exact server.exec_setex store _ _ _ _ hr.seconds hr.exptime.1
  have hshown : ShownMembers key .stored [(text "data",.string (line "OK" (by decide)).bytes)] := rfl
  refine ⟨_,_,_,scripts,encodedAs_set hr hcommand hvalue,hexec,conveys_shown trivial (by decide) hshown ?_,
    .value v request.compressThreshold hplain,hcache⟩
  intro cost stack shared r hunanswered hsame _ _ hreply
  exact answered_status proto backupServer cost printDouble stack shared hunanswered (hsame.trans hcommand) hreply

include hheld

theorem handles_get (hcommand : request.commandType = .get) :
    Handles proto backupServer printDouble server shas t scripts request ns key
      (TenantCommand.get.apply held) store := by
  have hencode : EncodedAs proto scripts request [text "GET",ns ++ key] scripts :=
    encodedAs_plain hr (by rw [hcommand]; decide)
  have hshow : ∀ (e : Elem) (v : Option Bytes), getString (ns ++ key) store = .ok e →
      (∀ stack, readElem proto.compress stack e = .ok (v.getD null)) →
        Handles proto backupServer printDouble server shas t scripts request ns key (.value v,held) store := by
    intro e v hget hread
    have hexec : server.exec store [text "GET",ns ++ key] =
        (.bulk e,Function.update store (ns ++ key) (store (ns ++ key))) := by
      rw [server.exec_get, hget, Function.update_eq_self]
      rfl
    have hshown : ShownMembers key (.value v) [(text "k",.string key),(text "v",.string (v.getD null))] := rfl
    refine ⟨_,_,_,scripts,hencode,hexec,conveys_shown trivial (encElem_length_le e) hshown ?_,hheld,hcache⟩
    intro cost stack shared r hunanswered hsame hkey _ hreply
    have hanswer := answered_bulk proto backupServer cost printDouble stack shared hunanswered
      (hsame.trans hcommand) hreply (hread (stack 0))
    rwa [hkey, hr.named] at hanswer
  unfold getString at hshow
  generalize hitem : store (ns ++ key) = item at hheld hshow
  cases hheld with
  | nothing => exact hshow none none rfl fun _ => rfl
  | value v t' hplain => exact hshow _ (some v.bytes) rfl fun stack => uncompressed_stored proto t' stack hplain
  | members hne hvs =>
    refine handles_refused hencode hcache ?_ refusal_wrongType (hitem ▸ .members hne hvs)
    rw [server.exec_get, getString, hitem]
    rfl

theorem handles_del (hcommand : request.commandType = .del) :
    Handles proto backupServer printDouble server shas t scripts request ns key
      (TenantCommand.del.apply held) store := by
  have hencode : EncodedAs proto scripts request [text "DEL",ns ++ key] scripts :=
    encodedAs_plain hr (by rw [hcommand]; decide)
  have hsome : (store (ns ++ key)).isSome = held.isSome := by
    generalize store (ns ++ key) = item at hheld
    cases hheld <;> rfl
  have hexec := server.exec_del store (ns ++ key)
  rw [hsome] at hexec
  refine handles_count hencode hcache hexec (by rw [hcommand]; decide) ?_ .nothing
  split <;> norm_num

end Plain

section Sets

include hheld

theorem handles_onSet {f : Finset Bytes → Answer × Option Held} {l : Line} (hcache : CacheOf shas cache)
    (hencode : EncodedAs proto scripts request argv cache) (hl : Refusal l)
    (hrefuse : KeyServer.members (ns ++ key) store = .error wrongType → server.exec store argv = (.error l,store))
    (hset : ∀ s vs, MembersOf vs s → heldSet held = some s → held = holdSet s →
      store (ns ++ key) = setItem (vs.map (storedBulk proto t)) →
        Handles proto backupServer printDouble server shas t scripts request ns key (f s) store) :
    Handles proto backupServer printDouble server shas t scripts request ns key (onSet held f) store := by
  cases hs : heldSet held with
  | some s =>
    obtain ⟨vs,hvs,hholds,hitem⟩ := hheld.set hs
    simpa only [onSet, hs] using hset s vs hvs hs hholds hitem
  | none =>
    have hvalue : KeyServer.members (ns ++ key) store = .error wrongType := by
      unfold KeyServer.members
      generalize store (ns ++ key) = item at hheld
      cases hheld with
      | nothing => cases hs
      | value => rfl
      | members => cases hs
    simpa only [onSet, hs] using handles_refused hencode hcache (hrefuse hvalue) hl hheld

include hr

theorem handles_scard (hcache : CacheOf shas scripts) (hcommand : request.commandType = .scard)
    (hrange : TenantCommand.scard.InRange held) :
    Handles proto backupServer printDouble server shas t scripts request ns key
      (TenantCommand.scard.apply held) store := by
  have hencode : EncodedAs proto scripts request [text "SCARD",ns ++ key] scripts :=
    encodedAs_plain hr (by rw [hcommand]; decide)
  refine handles_onSet hheld hcache hencode refusal_wrongType ?_ ?_
  · intro hmembers
    rw [server.exec_scard, hmembers]
    rfl
  · intro s vs hvs hs _ hitem
    have hcard := hrange s hs
    have hexec : server.exec store [text "SCARD",ns ++ key] =
        (.integer s.card,Function.update store (ns ++ key) (store (ns ++ key))) := by
      rw [server.exec_scard, members_of_item hitem, Function.update_eq_self, hvs.card]
      simp only [Except.map, answer, List.length_map]
    exact handles_count hencode hcache hexec (by rw [hcommand]; decide) (by omega) hheld

theorem handles_sismember {v : Value} (hcache : CacheOf shas scripts) (hcommand : request.commandType = .sismember)
    (hvalue : request.value = v.bytes) (hplain : v.bytes ≠ snappyWord) (ht : request.compressThreshold = t) :
    Handles proto backupServer printDouble server shas t scripts request ns key
      ((TenantCommand.sismember v).apply held) store := by
  have hencode : EncodedAs proto scripts request [text "SISMEMBER",ns ++ key,
      (storedBulk proto request.compressThreshold v).bytes] scripts := encodedAs_sismember hr hcommand hvalue
  refine handles_onSet hheld hcache hencode refusal_wrongType ?_ ?_
  · intro hmembers
    rw [server.exec_sismember, hmembers]
    rfl
  · intro s vs hvs hs _ hitem
    have hhas : has (vs.map (storedBulk proto t)) (storedBulk proto t v).bytes = decide (v.bytes ∈ s) := by
      rw [Bool.eq_iff_iff, hvs.has_iff hplain, decide_eq_true_eq]
    have hexec : server.exec store [text "SISMEMBER",ns ++ key,
        (storedBulk proto request.compressThreshold v).bytes] =
          (.integer (if decide (v.bytes ∈ s) then 1 else 0),
            Function.update store (ns ++ key) (store (ns ++ key))) := by
      rw [server.exec_sismember, members_of_item hitem, Function.update_eq_self, ht]
      simp only [Except.map, answer, hhas]
    refine ⟨_,_,_,scripts,hencode,hexec,conveys_shown trivial ?_ rfl ?_,hheld,hcache⟩
    · split <;> decide
    · intro cost stack shared r hunanswered hsame _ _ hreply
      exact answered_test proto backupServer cost printDouble stack shared hunanswered (hsame.trans hcommand) hreply

theorem handles_smembers (hcache : CacheOf shas scripts) (hcommand : request.commandType = .smembers)
    (hempty : request.vectorMbs = []) (hrange : TenantCommand.smembers.InRange held) :
    Handles proto backupServer printDouble server shas t scripts request ns key
      (TenantCommand.smembers.apply held) store := by
  have hencode : EncodedAs proto scripts request [text "SMEMBERS",ns ++ key] scripts :=
    encodedAs_plain hr (by rw [hcommand]; decide)
  refine handles_onSet hheld hcache hencode refusal_wrongType ?_ ?_
  · intro hmembers
    rw [server.exec_smembers, hmembers]
    rfl
  · intro s vs hvs hs _ hitem
    -- the server lists the stored members in an order of its own
    obtain ⟨us,horder,hperm⟩ : ∃ us : List Value, server.order (vs.map (storedBulk proto t)) =
        us.map (storedBulk proto t) ∧ us.Perm vs :=
      (congrFun₂ (List.eq_map_comp_perm (storedBulk proto t)) _ vs).mpr (server.order_perm _)
    have hus := hvs.perm hperm
    obtain ⟨hcount,hsize⟩ := hus.encode_length_le proto t (hrange s hs)
    have hexec : server.exec store [text "SMEMBERS",ns ++ key] =
        (.array (storedArray proto t us),Function.update store (ns ++ key) (store (ns ++ key))) := by
      rw [server.exec_smembers, members_of_item hitem, Function.update_eq_self]
      simp only [Except.map, answer, horder, storedArray, List.map_map]
      rfl
    have hnull : NoInnerNull (.array (storedArray proto t us)) := by
      intro e he
      obtain ⟨v,-,rfl⟩ := List.mem_map.mp (List.mem_of_mem_dropLast he)
      exact Option.some_ne_none _
    have hshown : ShownMembers key (.members s)
        [(text "k",.string key),(text "mbs",.array ((us.map (·.bytes)).map .string))] :=
      ⟨us.map Value.bytes,hus.nodup,hus.bytes,rfl⟩
    refine ⟨_,_,_,scripts,hencode,hexec,conveys_shown hnull hsize hshown ?_,hheld,hcache⟩
    intro cost stack shared r hunanswered hsame hkey hmbs hreply
    have hanswer := answered_members proto backupServer cost printDouble stack shared hunanswered
      (hsame.trans hcommand) (hmbs.trans hempty) hus.plain hcount hreply
    rwa [hkey, hr.named] at hanswer

theorem handles_srem {ws : List Value} (hcache : CacheOf shas scripts) (hcommand : request.commandType = .srem)
    (hm : Members t request ws) (hne : ws ≠ []) :
    Handles proto backupServer printDouble server shas t scripts request ns key
      ((TenantCommand.srem ws).apply held) store := by
  have hencode : EncodedAs proto scripts request
      (text "SREM" :: (ns ++ key) :: (ws.map (storedBulk proto t)).map (·.bytes)) scripts :=
    encodedAs_srem hr hcommand hm
  have hargs : (ws.map (storedBulk proto t)).map (·.bytes) ≠ [] := by simpa using hne
  refine handles_onSet hheld hcache hencode refusal_wrongType ?_ ?_
  · intro hmembers
    rw [server.exec_srem store _ _ hargs, srem, hmembers]
    rfl
  · intro s vs hvs hs _ hitem
    obtain ⟨us,hus,hwithout⟩ : ∃ us, MembersOf us (s \ bytesOf ws) ∧
        without (vs.map (storedBulk proto t)) ((ws.map (storedBulk proto t)).map (·.bytes)) =
          us.map (storedBulk proto t) := hvs.remove hm.plain
    have hcount : (s.card : Int) - (s \ bytesOf ws).card = ((vs.length - us.length : Nat) : Int) := by
      have hle : (s \ bytesOf ws).card ≤ s.card := Finset.card_le_card Finset.sdiff_subset
      rw [hvs.card, hus.card] at hle ⊢
      omega
    have hfew : (s.card : Int) - (s \ bytesOf ws).card < 2 ^ 31 := by
      have hsplit := Finset.card_le_card_sdiff_add_card (s := s) (t := bytesOf ws)
      have hle : (bytesOf ws).card ≤ ws.length := by
        rw [bytesOf]
        exact (List.toFinset_card_le _).trans (List.length_map _).le
      have hsmall := hm.count
      omega
    have hexec : server.exec store (text "SREM" :: (ns ++ key) :: (ws.map (storedBulk proto t)).map (·.bytes)) =
        (.integer ((s.card : Int) - (s \ bytesOf ws).card),
          Function.update store (ns ++ key) (setItem (us.map (storedBulk proto t)))) := by
      rw [server.exec_srem store _ _ hargs, srem_of_item hitem, hwithout, hcount]
      simp only [Except.map, answer, List.length_map]
    refine handles_count hencode hcache hexec (by rw [hcommand]; decide) ⟨?_,hfew⟩ (heldAs_holdSet hus)
    rw [hcount]
    omega

end Sets

section Scripts

include hs hcache hr hheld

theorem handles_sadd {ws : List Value} (hcommand : request.commandType = .sadd) (hm : Members t request ws) :
    Handles proto backupServer printDouble server shas t scripts request ns key
      ((TenantCommand.sadd ws).apply held) store := by
  obtain ⟨cache,hcache',hencode⟩ := encodedAs_sadd hs hcache hr hcommand hm
  have hlength : (ws.map (storedBulk proto t)).length = ws.length := List.length_map _
  refine handles_onSet hheld hcache' hencode (refusal_failed lua (l := wrongType) (.inr rfl)) ?_ ?_
  · intro hmembers
    have hrefuse := addRSetScript_refuses lua hmembers (toString32 request.exptime)
      ((ws.map (storedBulk proto t)).map (·.bytes))
    rwa [List.length_map, hlength, ← server.exec_evalsha store _ _ (ns ++ key) _ hs.addRset] at hrefuse
  · intro s vs hvs hheldSet _ hitem
    obtain ⟨us,hus,hfold⟩ : ∃ us, MembersOf us (s ∪ bytesOf ws) ∧
        (ws.map (storedBulk proto t)).foldl addMember (vs.map (storedBulk proto t)) = us.map (storedBulk proto t) :=
      hvs.addAll hm.plain
    have hfew : 0 ≤ ((s ∪ bytesOf ws).card : Int) - s.card ∧ ((s ∪ bytesOf ws).card : Int) - s.card < 2 ^ 31 := by
      have hunion := Finset.card_union_le s (bytesOf ws)
      have hsub : s.card ≤ (s ∪ bytesOf ws).card := Finset.card_le_card Finset.subset_union_left
      have hle : (bytesOf ws).card ≤ ws.length := by
        rw [bytesOf]
        exact (List.toFinset_card_le _).trans (List.length_map _).le
      have hsmall := hm.count
      omega
    have hnew : (((us.map (storedBulk proto t)).length : Int) - (vs.map (storedBulk proto t)).length) =
        ((s ∪ bytesOf ws).card : Int) - s.card := by
      rw [List.length_map, List.length_map, hus.card, hvs.card]
    have hadds := addRSetScript_adds lua hitem (ws.map (storedBulk proto t)) hr.seconds hr.exptime.1 (by
      rw [hfold, hnew]
      omega)
    rw [hfold, hnew, hlength, ← server.exec_evalsha store _ _ (ns ++ key) _ hs.addRset] at hadds
    exact handles_count hencode hcache' hadds (by rw [hcommand]; decide) (by omega) (heldAs_holdSet hus)

theorem handles_incrBy {n : Int} (hcommand : request.commandType = .incr ∨ request.commandType = .incrby)
    (hvalue : incrValue request = intText n) (hrange : (TenantCommand.incrBy n).InRange held) :
    Handles proto backupServer printDouble server shas t scripts request ns key
      ((TenantCommand.incrBy n).apply held) store := by
  obtain ⟨hn,hrange⟩ := hrange
  obtain ⟨cache,hcache',hencode⟩ := encodedAs_incrBy hs hcache hr hcommand hvalue hn
  have hinteger : request.commandType ∈ integerCommands := by
    rcases hcommand with hcommand | hcommand <;> rw [hcommand] <;> decide
  cases hm : heldNumber held with
  | none =>
    obtain ⟨l,hcounter,hhead⟩ := hheld.counter_of_none hm
    have hexec : incrByScript lua [ns ++ key] [intText n,toString32 request.exptime] store =
        (.error (lua.failed l),store) := incrByScript_refuses lua (by omega) hcounter
    rw [← server.exec_evalsha store _ _ (ns ++ key) _ hs.incrby] at hexec
    simpa only [TenantCommand.apply, hm] using
      handles_refused hencode hcache' hexec (refusal_failed lua hhead) hheld
  | some m =>
    obtain ⟨hsmall,hsum⟩ := hrange m hm
    -- the sum is kept as the value that a client would have set
    have hraw := stored_raw proto (numberValue (m + n) hsum)
    have hexec := incrByScript_counts lua hn (hheld.counter_of_some hm hsmall) hsum hr.seconds hr.exptime.1 hraw
    rw [← server.exec_evalsha store _ _ (ns ++ key) _ hs.incrby] at hexec
    simp only [TenantCommand.apply, hm]
    exact handles_count hencode hcache' hexec hinteger hsum
      (.value (numberValue (m + n) hsum) _ (intText_ne_snappyWord _))

variable (backupServer printDouble) in
theorem handles_command {c : TenantCommand} (hc : c.CarriedBy t request) (hrange : c.InRange held) :
    Handles proto backupServer printDouble server shas t scripts request ns key (c.apply held) store := by
  cases c with
  | get => exact handles_get hcache hr hheld hc
  | set v => exact handles_set hcache hr hc.1 hc.2.1 hc.2.2
  | del => exact handles_del hcache hr hheld hc
  | incrBy n => exact handles_incrBy hs hcache hr hheld hc.1 hc.2 hrange
  | sadd ws => exact handles_sadd hs hcache hr hheld hc.1 hc.2
  | srem ws => exact handles_srem hr hheld hcache hc.1 hc.2.1 hc.2.2
  | scard => exact handles_scard hr hheld hcache hc hrange
  | smembers => exact handles_smembers hr hheld hcache hc.1 hc.2 hrange
  | sismember v => exact handles_sismember hr hheld hcache hc.1 hc.2.1 hc.2.2.1 hc.2.2.2

end Scripts

end Commands

section Exchange

variable (cost : Int) {world : World} (conf : UpstreamConf)

/-- The request that reads the reply may have been sent more than once. -/
theorem Conveys.read {reply : Reply} {a : Answer} (h : Conveys proto backupServer printDouble request key reply a)
    {u : Upstream} (hstage : u.stage = .sent) (hflag : u.movedAsk = .ok) (hbuffer : u.buffer = [])
    (hunanswered : Unanswered u.request) (hcommand : u.request.commandType = request.commandType)
    (hkey : u.request.key = request.key) (hmbs : u.request.vectorMbs = request.vectorMbs)
    (hparent : world.parent = none) :
    ∃ v, step (yajlHandler proto backupServer cost printDouble) conf u (.read world (encode reply)) = some v ∧
      v.stage = .done .response ∧ Shows cost key a v.request.responseBuffer := by
  obtain ⟨doc,⟨p,hprocess,hrc,hbody⟩,hshows⟩ := h.answers cost world.stack world.shared
    { u.request with responseBuffer := encode reply, movedAsk := .ok }
    ⟨hunanswered.code,hunanswered.client,hunanswered.desc⟩ hcommand hkey hmbs rfl
  refine ⟨{ u with buffer := encode reply, request := p.request, stage := .done .response },?_,rfl,hbody ▸ hshows⟩
  have hresponse := headerCheck_reply h.noInnerNull h.size
  simp only [step, hstage, processHeader, hflag, hbuffer, List.nil_append, hresponse, processResponse, hparent,
    hprocess, hrc, Upstream.finish]

theorem Handles.serve {result : Answer × Option Held}
    (h : Handles proto backupServer printDouble server shas t scripts request ns key result store)
    (hr : Addressed request ns key) (hparent : world.parent = none) :
    ∃ body item cache, QkPack.serve (yajlHandler proto backupServer cost printDouble) conf world server
        ⟨store,scripts⟩ request = some (body,⟨Function.update store (ns ++ key) item,cache⟩) ∧
      Shows cost key result.1 body ∧ HeldAs proto t result.2 item ∧ CacheOf shas cache := by
  obtain ⟨argv,reply,item,cache,⟨command,value,hencode⟩,hexec,hconveys,hheld,hcache⟩ := h
  have hencode' : redisProtoEncode (yajlHandler proto backupServer cost printDouble).proto scripts none request =
      (.ok { request with command := command, value := value, protoStr := encCommand argv },cache) := hencode
  obtain ⟨u,hrun,hstage,hrequest,hflag,hbuffer,hwritten⟩ :=
    run_connect conf (yajlHandler proto backupServer cost printDouble) world
      { request with command := command, value := value, protoStr := encCommand argv }
  have hunanswered : Unanswered u.request := by
    rw [hrequest]
    exact ⟨hr.unanswered.code,hr.unanswered.client,hr.unanswered.desc⟩
  obtain ⟨v,hread,hdone,hshows⟩ := hconveys.read cost conf hstage hflag hbuffer hunanswered
    (by rw [hrequest]) (by rw [hrequest]) (by rw [hrequest]) hparent
  refine ⟨v.request.responseBuffer,item,cache,?_,hshows,hheld,hcache⟩
  simp only [QkPack.serve, hencode', exchange, hrun, hwritten, List.getLast?_singleton, Option.bind_eq_bind,
    Option.bind_some, parseCommand_whole, ne_eq, not_true_eq_false, if_false, hexec, Machine.run_single hread, hdone,
    if_true, Option.map_some]

end Exchange

end Service

end QkPack

import Mathlib.Tactic.Push
import QkPack.Config.Acl

/-!
# The limits of sets

`GetZsetLimit` gives every set of a request the limit of the first policy for the length of its key. The flag that says
whether there was one is kept from key to key.
-/

namespace QkPack
open Wire CString Resp Json

def limitFirst (limit : Int) (kvs : List KvPair) : List KvPair := kvs.modifyHead fun kv => { kv with limit := limit }

def Covered (policies : List LimitPolicy) (key : Bytes) : Prop := ∃ policy ∈ policies, policy.covers key = true

def HasLimit (policies : List LimitPolicy) (zset limited : Bytes × List KvPair) : Prop :=
  ∃ policy, policies.find? (·.covers zset.1) = some policy ∧ limited = (zset.1,limitFirst policy.limit zset.2)

section Limits

variable {policies : List LimitPolicy} {mapKv : List (Bytes × List KvPair)} {r r' : Request}

theorem covered_iff {key : Bytes} : Covered policies key ↔ ∃ policy, policies.find? (·.covers key) = some policy := by
  rw [Covered, ← Option.isSome_iff_exists, List.find?_isSome]

theorem setLimits_keys (policies : List LimitPolicy) (status : Bool) (mapKv : List (Bytes × List KvPair)) :
    (setLimits policies status mapKv).2.map (·.1) = mapKv.map (·.1) := by
  induction mapKv generalizing status with
  | nil => rfl
  | cons entry mapKv ih =>
    obtain ⟨key,kvs⟩ := entry
    rw [setLimits]
    split
    · simp only [List.map_cons, ih]
    · split
      · simp only [List.map_cons, ih]
      · rfl

theorem limitSets_ok (h : limitSets policies r = (.ok,r')) :
    ∃ mapKv, setLimits policies false r.mapKv = (none,mapKv) ∧ r' = { r with mapKv := mapKv } := by
  unfold limitSets at h
  split at h
  · rename_i mapKv heq
    cases h
    exact ⟨mapKv,heq,rfl⟩
  · cases h

theorem getZsetLimit_ok (h : getZsetLimit policies r = (.ok,r')) :
    ∃ mapKv, r' = { r with mapKv := mapKv } ∧ mapKv.map (·.1) = r.mapKv.map (·.1) := by
  have hlimited (h : limitSets policies r = (.ok,r')) :
      ∃ mapKv, r' = { r with mapKv := mapKv } ∧ mapKv.map (·.1) = r.mapKv.map (·.1) := by
    obtain ⟨mapKv,hset,rfl⟩ := limitSets_ok h
    have hkeys := setLimits_keys policies false r.mapKv
    rw [hset] at hkeys
    exact ⟨mapKv,rfl,hkeys⟩
  unfold getZsetLimit at h
  split at h
  · exact hlimited h
  · exact hlimited h
  · cases h
    exact ⟨r.mapKv,rfl,rfl⟩

theorem setLimits_one {key : Bytes} {kvs : List KvPair}
    {mapKv : List (Bytes × List KvPair)} (h : setLimits policies false [(key,kvs)] = (none,mapKv)) :
    ∃ policy, policies.find? (·.covers key) = some policy ∧ mapKv = [(key,limitFirst policy.limit kvs)] := by
  rw [setLimits] at h
  split at h
  · rename_i policy hfind
    cases h
    exact ⟨policy,hfind,rfl⟩
  · cases h

theorem setLimits_accepts (mapKv : List (Bytes × List KvPair)) : (setLimits policies true mapKv).1 = none := by
  induction mapKv with
  | nil => rfl
  | cons zset mapKv ih =>
    rw [setLimits]
    split
    · exact ih
    · exact ih

/-- Only the first key is ever refused. -/
theorem setLimits_none_iff :
    (setLimits policies false mapKv).1 = none ↔ ∀ zset, mapKv.head? = some zset → Covered policies zset.1 := by
  cases mapKv with
  | nil => simp [setLimits]
  | cons zset mapKv =>
    rw [setLimits, List.head?_cons]
    simp only [Option.some.injEq, forall_eq', covered_iff]
    split
    · rename_i policy hfind
      exact iff_of_true (setLimits_accepts mapKv) ⟨policy,hfind⟩
    · rename_i hfind
      simp [hfind]

/-- With a policy for every key, every set has its own limit. -/
theorem setLimits_limits (status : Bool) (h : ∀ zset ∈ mapKv, Covered policies zset.1) :
    List.Forall₂ (HasLimit policies) mapKv (setLimits policies status mapKv).2 := by
  induction mapKv generalizing status with
  | nil => exact .nil
  | cons zset mapKv ih =>
    obtain ⟨hzset,hrest⟩ := List.forall_mem_cons.mp h
    obtain ⟨policy,hfind⟩ := covered_iff.mp hzset
    rw [setLimits, hfind]
    exact .cons ⟨policy,hfind,rfl⟩ (ih true hrest)

variable (policies) in
theorem getZsetLimit_eq (hcommand : r.commandType = .zadd ∨ r.commandType = .zbatchadd) :
    ((getZsetLimit policies r).1 = .ok ↔ (setLimits policies false r.mapKv).1 = none) ∧
      (getZsetLimit policies r).2.mapKv = (setLimits policies false r.mapKv).2 := by
  have hsets : getZsetLimit policies r = limitSets policies r := by
    unfold getZsetLimit
    rcases hcommand with h | h
    · rw [h]
    · rw [h]
  rw [hsets, limitSets]
  obtain ⟨refused,mapKv⟩ := setLimits policies false r.mapKv
  cases refused with
  | none => exact ⟨iff_of_true rfl rfl,rfl⟩
  | some length => exact ⟨iff_of_false nofun nofun,rfl⟩

variable (policies) in
/-- A request to write sets is accepted exactly if there is a policy for each of its keys, and each set then has its
own limit, as long as a key without a policy comes first or not at all. -/
theorem zset_limits_iff (hcommand : r.commandType = .zadd ∨ r.commandType = .zbatchadd) :
    (((getZsetLimit policies r).1 = .ok ↔ ∀ zset ∈ r.mapKv, Covered policies zset.1) ∧
        ((getZsetLimit policies r).1 = .ok →
          List.Forall₂ (HasLimit policies) r.mapKv (getZsetLimit policies r).2.mapKv)) ↔
      (∀ zset ∈ r.mapKv, Covered policies zset.1) ∨
        ∃ zset, r.mapKv.head? = some zset ∧ ¬ Covered policies zset.1 := by
  obtain ⟨hok,hmap⟩ := getZsetLimit_eq policies hcommand
  rw [hok, hmap, setLimits_none_iff]
  constructor
  · rintro ⟨hiff,-⟩
    by_cases hfirst : ∀ zset, r.mapKv.head? = some zset → Covered policies zset.1
    · exact .inl (hiff.mp hfirst)
    · push Not at hfirst
      exact .inr hfirst
  · rintro (hall | ⟨zset,hfirst,hnot⟩)
    · have hhead : ∀ zset, r.mapKv.head? = some zset → Covered policies zset.1 :=
        fun zset h => hall zset (List.mem_of_mem_head? h)
      exact ⟨iff_of_true hhead hall,fun _ => setLimits_limits false hall⟩
    · have hrefused : ¬ ∀ zset, r.mapKv.head? = some zset → Covered policies zset.1 :=
        fun h => hnot (h zset hfirst)
      exact ⟨iff_of_false hrefused fun h => hnot (h zset (List.mem_of_mem_head? hfirst)),
        fun h => absurd h hrefused⟩

end Limits

def twoSets : Request :=
  { Request.opened .zbatchadd with
    mapKv := [(text "a",[.plain (text "m") (text "1")]),(text "bb",[.plain (text "n") (text "2")])] }

theorem zset_limits_two :
    ((getZsetLimit [⟨1,1,10⟩,⟨2,9,20⟩] twoSets).1 = .ok ↔
        ∀ zset ∈ twoSets.mapKv, Covered [⟨1,1,10⟩,⟨2,9,20⟩] zset.1) ∧
      ((getZsetLimit [⟨1,1,10⟩,⟨2,9,20⟩] twoSets).1 = .ok →
        List.Forall₂ (HasLimit [⟨1,1,10⟩,⟨2,9,20⟩]) twoSets.mapKv (getZsetLimit [⟨1,1,10⟩,⟨2,9,20⟩] twoSets).2.mapKv) :=
  (zset_limits_iff [⟨1,1,10⟩,⟨2,9,20⟩] (.inr rfl)).mpr (.inl (by
    refine List.forall_mem_cons.mpr ⟨?_,List.forall_mem_singleton.mpr ?_⟩
    · exact ⟨⟨1,1,10⟩,by simp,by decide⟩
    · exact ⟨⟨2,9,20⟩,by simp,by decide⟩))

/-- There is no policy for the second key. The request is accepted, and its set is left without a limit. -/
theorem uncovered_key_accepted :
    ¬ Covered [⟨1,1,10⟩] (text "bb") ∧ (getZsetLimit [⟨1,1,10⟩] twoSets).1 = .ok ∧
      (getZsetLimit [⟨1,1,10⟩] twoSets).2.mapKv.lookup (text "bb") =
        twoSets.mapKv.lookup (text "bb") := by
  refine ⟨?_,by decide,by decide⟩
  rintro ⟨policy,hpolicy,hcovers⟩
  rw [List.mem_singleton.mp hpolicy] at hcovers
  revert hcovers
  decide

end QkPack

import Mathlib.Data.List.Forall2

namespace KeepAt

/-- What the URL parser reports of a string it accepts. -/
structure ParsedUrl where
  scheme : String
  host : Option String
  deriving DecidableEq

def atHost : String := "academictorrents.com"

def atIpv6Host : String := "ipv6.academictorrents.com"

variable (parse : String → Option ParsedUrl)

/-- The per-user announce URL to use for a tracker URL. -/
def atAnnounceUrl (announce userAnnounce userAnnounceIpv6 : String) : Option String :=
  match parse announce with
  | none => none
  | some u =>
    if u.scheme ≠ "https" then none
    else
      match u.host with
      | none => none
      | some host =>
        if host = atHost ∧ userAnnounce ≠ "" then some userAnnounce
        else if host = atIpv6Host ∧ userAnnounceIpv6 ≠ "" then some userAnnounceIpv6
        else none

def keyedTrackers (tiers : List (List String)) (userAnnounce userAnnounceIpv6 : String) :
    List (List String) :=
  if userAnnounce = "" then tiers
  else
    tiers.map fun tier =>
      tier.map fun t => (atAnnounceUrl parse t userAnnounce userAnnounceIpv6).getD t

/-- Exact host or a subdomain of it, in any scheme and any case. -/
def isAtTrackerUrl (url : String) : Bool :=
  match parse url with
  | none => false
  | some u =>
    match u.host with
    | none => false
    | some h =>
      h.toLower == atHost.toLower || ("." ++ atHost).toList.isSuffixOf h.toLower.toList

def atTrackersOnly (tiers : List (List String)) (userAnnounce userAnnounceIpv6 : String) :
    List (List String) :=
  let found := tiers.flatten.any fun t =>
    (atAnnounceUrl parse t userAnnounce userAnnounce).isSome || isAtTrackerUrl parse t
  if !found then tiers
  else
    tiers.filterMap fun tier =>
      let kept := tier.filterMap fun t =>
        if isAtTrackerUrl parse t then
          some ((atAnnounceUrl parse t userAnnounce userAnnounceIpv6).getD t)
        else none
      if kept.isEmpty then none else some kept

/-- The trackers the filter keeps: those on an AT host, in their tiers, or all when there is none. -/
def atTiers (tiers : List (List String)) : List (List String) :=
  if ∃ t ∈ tiers.flatten, isAtTrackerUrl parse t = true then
    (tiers.map (List.filter (isAtTrackerUrl parse))).filter (· ≠ [])
  else tiers

def OnHttps (host input : String) : Prop :=
  ∃ u, parse input = some u ∧ u.scheme = "https" ∧ u.host = some host

/-- What one position of a keyed run may hold where the run without a key holds `input`. -/
structure Confined (userAnnounce userAnnounceIpv6 input output : String) : Prop where
  differs : output ≠ input →
    (OnHttps parse atHost input ∧ output = userAnnounce) ∨
      (OnHttps parse atIpv6Host input ∧ output = userAnnounceIpv6)
  keyed : userAnnounce ≠ "" →
    (OnHttps parse atHost input → output = userAnnounce) ∧
      (OnHttps parse atIpv6Host input → userAnnounceIpv6 ≠ "" → output = userAnnounceIpv6)

variable {parse} {u v t : String} {tiers : List (List String)}

theorem onHttps_iff {url : ParsedUrl} {host : String} (h : parse t = some url) :
    OnHttps parse host t ↔ url.scheme = "https" ∧ url.host = some host := by
  simp [OnHttps, h]

theorem not_onHttps {host : String} (h : parse t = none) : ¬OnHttps parse host t := by
  simp [OnHttps, h]

theorem atAnnounceUrl_cases (parse : String → Option ParsedUrl) (t u v : String) :
    (OnHttps parse atHost t ∧ u ≠ "" ∧ atAnnounceUrl parse t u v = some u) ∨
      (OnHttps parse atIpv6Host t ∧ v ≠ "" ∧ atAnnounceUrl parse t u v = some v) ∨
      ((OnHttps parse atHost t → u = "") ∧ (OnHttps parse atIpv6Host t → v = "") ∧
        atAnnounceUrl parse t u v = none) := by
  unfold atAnnounceUrl
  cases hp : parse t with
  | none =>
    exact Or.inr (Or.inr ⟨fun h => absurd h (not_onHttps hp), fun h => absurd h (not_onHttps hp), rfl⟩)
  | some url =>
    simp only [onHttps_iff hp]
    by_cases hs : url.scheme = "https"
    · rw [if_neg (not_not_intro hs)]
      cases hh : url.host with
      | none => simp
      | some host =>
        dsimp only
        split
        next h => exact Or.inl ⟨⟨hs, congrArg some h.1⟩, h.2, rfl⟩
        next h =>
          split
          next h' => exact Or.inr (Or.inl ⟨⟨hs, congrArg some h'.1⟩, h'.2, rfl⟩)
          next h' =>
            refine Or.inr (Or.inr ⟨fun hon => ?_, fun hon => ?_, rfl⟩)
            · exact not_not.mp fun hne => h ⟨Option.some.inj hon.2, hne⟩
            · exact not_not.mp fun hne => h' ⟨Option.some.inj hon.2, hne⟩
    · rw [if_pos hs]
      exact Or.inr (Or.inr ⟨fun h => absurd h.1 hs, fun h => absurd h.1 hs, rfl⟩)

theorem onHttps_not_both (h : OnHttps parse atHost t) : ¬OnHttps parse atIpv6Host t := by
  obtain ⟨url, hp, -, hh⟩ := h
  rw [onHttps_iff hp, hh]
  exact fun h' => absurd (Option.some.inj h'.2) (by decide)

theorem atAnnounceUrl_getD_confined (t : String) :
    Confined parse u v t ((atAnnounceUrl parse t u v).getD t) := by
  rcases atAnnounceUrl_cases parse t u v with ⟨hon, -, h⟩ | ⟨hon, -, h⟩ | ⟨hat, hv6, h⟩ <;>
    rw [h]
  · exact ⟨fun _ => Or.inl ⟨hon, rfl⟩, fun _ => ⟨fun _ => rfl, fun h6 => absurd h6 (onHttps_not_both hon)⟩⟩
  · exact ⟨fun _ => Or.inr ⟨hon, rfl⟩, fun _ => ⟨fun h => absurd hon (onHttps_not_both h), fun _ _ => rfl⟩⟩
  · exact ⟨fun hne => absurd rfl hne, fun hu => ⟨fun h => absurd (hat h) hu, fun h hne => absurd (hv6 h) hne⟩⟩

/-- An https URL on one of the two exact hosts is on an AT host in the wider sense of the filter. -/
theorem isAtTrackerUrl_of_announce (h : (atAnnounceUrl parse t u v).isSome) :
    isAtTrackerUrl parse t = true := by
  have hosts : OnHttps parse atHost t ∨ OnHttps parse atIpv6Host t := by
    rcases atAnnounceUrl_cases parse t u v with ⟨hon, -⟩ | ⟨hon, -⟩ | ⟨-, -, hnone⟩
    · exact Or.inl hon
    · exact Or.inr hon
    · rw [hnone] at h
      cases h
  rcases hosts with ⟨url, hp, -, hh⟩ | ⟨url, hp, -, hh⟩ <;>
  · simp only [isAtTrackerUrl, hp, hh]
    decide +kernel

theorem atAnnounceUrl_of_not_at (h : ¬isAtTrackerUrl parse t = true) : atAnnounceUrl parse t u v = none :=
  Option.not_isSome_iff_eq_none.mp fun hs => h (isAtTrackerUrl_of_announce hs)

theorem atAnnounceUrl_empty (parse : String → Option ParsedUrl) (t : String) :
    atAnnounceUrl parse t "" "" = none := by
  rcases atAnnounceUrl_cases parse t "" "" with ⟨-, hne, -⟩ | ⟨-, hne, -⟩ | ⟨-, -, h⟩
  · exact absurd rfl hne
  · exact absurd rfl hne
  · exact h

theorem found_iff (tiers : List (List String)) (u : String) :
    (tiers.flatten.any fun t => (atAnnounceUrl parse t u u).isSome || isAtTrackerUrl parse t) = true ↔
      ∃ t ∈ tiers.flatten, isAtTrackerUrl parse t = true := by
  simp only [List.any_eq_true, Bool.or_eq_true]
  exact exists_congr fun t => and_congr_right fun _ => ⟨fun h => h.elim isAtTrackerUrl_of_announce id, Or.inr⟩

theorem keptTier_eq (rewrite : String → String) (tier : List String) :
    (tier.filterMap fun t => if isAtTrackerUrl parse t then some (rewrite t) else none) =
      (tier.filter (isAtTrackerUrl parse)).map rewrite := by
  induction tier with
  | nil => rfl
  | cons t tier ih =>
    by_cases h : isAtTrackerUrl parse t = true <;> simp [h, ih]

theorem keptTiers_eq (rewrite : String → String) (tiers : List (List String)) :
    (tiers.filterMap fun tier =>
      let kept := tier.filterMap fun t => if isAtTrackerUrl parse t then some (rewrite t) else none
      if kept.isEmpty then none else some kept) =
      ((tiers.map (List.filter (isAtTrackerUrl parse))).filter (· ≠ [])).map (List.map rewrite) := by
  induction tiers with
  | nil => rfl
  | cons tier tiers ih =>
    rw [List.filterMap_cons, List.map_cons, List.filter_cons, ih]
    simp only [keptTier_eq, List.isEmpty_iff, List.map_eq_nil_iff]
    by_cases h : tier.filter (isAtTrackerUrl parse) = [] <;> simp [h]

/-- Filtering does not look at the key, and keying is per URL: the filter first, then the keys. -/
theorem atTrackersOnly_eq (tiers : List (List String)) (u v : String) :
    atTrackersOnly parse tiers u v =
      (atTiers parse tiers).map (List.map fun t => (atAnnounceUrl parse t u v).getD t) := by
  by_cases hfound : ∃ t ∈ tiers.flatten, isAtTrackerUrl parse t = true
  · rw [atTiers, if_pos hfound, ← keptTiers_eq, atTrackersOnly]
    simp only [(found_iff tiers u).mpr hfound, Bool.not_true, Bool.false_eq_true, if_false]
  · have hid : ∀ t ∈ tiers.flatten, (atAnnounceUrl parse t u v).getD t = t := fun t ht => by
      rw [atAnnounceUrl_of_not_at fun h => hfound ⟨t, ht, h⟩]
      rfl
    have hmap : tiers.map (List.map fun t => (atAnnounceUrl parse t u v).getD t) = tiers.map id :=
      List.map_congr_left fun tier htier =>
        (List.map_congr_left fun t ht => hid t (List.mem_flatten.mpr ⟨tier, htier, ht⟩)).trans
          (List.map_id tier)
    have hnot := Bool.eq_false_iff.mpr (mt (found_iff tiers u).mp hfound)
    rw [atTiers, if_neg hfound, hmap, List.map_id, atTrackersOnly]
    simp only [hnot, Bool.not_false, if_true]

theorem atTrackersOnly_empty (parse : String → Option ParsedUrl) (tiers : List (List String)) :
    atTrackersOnly parse tiers "" "" = atTiers parse tiers := by
  rw [atTrackersOnly_eq]
  simp only [atAnnounceUrl_empty, Option.getD_none, List.map_id_fun', List.map_id]

theorem forall₂_map_self {α β : Type*} {R : α → β → Prop} {f : α → β} (h : ∀ a, R a (f a)) (xs : List α) :
    List.Forall₂ R xs (xs.map f) :=
  List.forall₂_map_right_iff.mpr (List.forall₂_same.mpr fun a _ => h a)

theorem atTiers_flatten_ne_nil (h : tiers.flatten ≠ []) : (atTiers parse tiers).flatten ≠ [] := by
  unfold atTiers
  split
  next hfound =>
    obtain ⟨t, ht, hat⟩ := hfound
    obtain ⟨tier, htier, ht⟩ := List.mem_flatten.mp ht
    have hkept : t ∈ tier.filter (isAtTrackerUrl parse) := List.mem_filter.mpr ⟨ht, hat⟩
    have htiers : tier.filter (isAtTrackerUrl parse) ∈
        (tiers.map (List.filter (isAtTrackerUrl parse))).filter (· ≠ []) :=
      List.mem_filter.mpr ⟨List.mem_map_of_mem htier, by simpa using List.ne_nil_of_mem hkept⟩
    exact List.ne_nil_of_mem (List.mem_flatten.mpr ⟨_, htiers, hkept⟩)
  next => exact h

theorem atTiers_ne_nil (h : tiers ≠ []) : atTiers parse tiers ≠ [] := by
  by_cases hflat : tiers.flatten = []
  · have hnone : ¬∃ t ∈ tiers.flatten, isAtTrackerUrl parse t = true := by simp [hflat]
    rw [atTiers, if_neg hnone]
    exact h
  · intro hnil
    exact atTiers_flatten_ne_nil hflat (by rw [hnil]; rfl)

/-- A keyed run and the run without a key keep the same trackers in the same tiers, those the filter
keeps, and differ only where the input is https on one of the two exact hosts. -/
theorem passkey_confined (parse : String → Option ParsedUrl) (tiers : List (List String)) (u v : String) :
    (keyedTrackers parse tiers "" "" = tiers ∧
      List.Forall₂ (List.Forall₂ (Confined parse u v)) tiers (keyedTrackers parse tiers u v)) ∧
    (atTrackersOnly parse tiers "" "" = atTiers parse tiers ∧
      List.Forall₂ (List.Forall₂ (Confined parse u v)) (atTiers parse tiers)
        (atTrackersOnly parse tiers u v)) ∧
    (tiers ≠ [] → atTrackersOnly parse tiers u v ≠ []) ∧
    (tiers.flatten ≠ [] → (atTrackersOnly parse tiers u v).flatten ≠ []) := by
  have hkeyed : ∀ tiers : List (List String), List.Forall₂ (List.Forall₂ (Confined parse u v)) tiers
      (tiers.map (List.map fun t => (atAnnounceUrl parse t u v).getD t)) :=
    forall₂_map_self (forall₂_map_self atAnnounceUrl_getD_confined)
  refine ⟨⟨if_pos rfl, ?_⟩, ⟨atTrackersOnly_empty parse tiers, ?_⟩, fun h => ?_, fun h => ?_⟩
  · unfold keyedTrackers
    split
    next hu =>
      have hself : ∀ t, Confined parse u v t t :=
        fun t => ⟨fun hne => absurd rfl hne, fun hne => absurd hu hne⟩
      exact List.forall₂_same.mpr fun tier _ => List.forall₂_same.mpr fun t _ => hself t
    next => exact hkeyed tiers
  · rw [atTrackersOnly_eq]
    exact hkeyed _
  · rw [atTrackersOnly_eq]
    exact fun hnil => atTiers_ne_nil h (List.map_eq_nil_iff.mp hnil)
  · rw [atTrackersOnly_eq, ← List.map_flatten]
    exact fun hnil => atTiers_flatten_ne_nil h (List.map_eq_nil_iff.mp hnil)

end KeepAt

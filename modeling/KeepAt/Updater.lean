import KeepAt.TorrentFile
import Mathlib.Data.List.GetD
import Mathlib.Order.PiLex

namespace KeepAt

structure Asset where
  name : String
  browserDownloadUrl : String
  deriving DecidableEq

structure Release where
  tagName : String
  draft : Bool := false
  assets : List Asset := []
  deriving DecidableEq

inductive Channel where
  | stable
  | beta
  deriving DecidableEq

def trimStartV (tag : String) : List Char := tag.toList.dropWhile (· = 'v')

/-- A `-beta`, `-rc` or `-alpha` suffix is beta, two components without a suffix are stable, and
any other shape belongs to neither channel. -/
def channelOf (tag : String) : Option Channel :=
  let t := trimStartV tag
  if '-' ∈ t then
    let s := ((t.dropWhile (· ≠ '-')).drop 1).map Char.toLower
    if "beta".toList.isPrefixOf s || "rc".toList.isPrefixOf s || "alpha".toList.isPrefixOf s then some .beta
    else none
  else if (t.splitOn '.').length = 2 then some .stable
  else none

def wantedChannel (includeBeta : Bool) : Channel := if includeBeta then .beta else .stable

def Release.Eligible (includeBeta : Bool) (r : Release) : Prop :=
  r.draft = false ∧ channelOf r.tagName = some (wantedChannel includeBeta)

instance (includeBeta : Bool) : DecidablePred (Release.Eligible includeBeta) := fun r =>
  inferInstanceAs (Decidable (r.draft = false ∧ channelOf r.tagName = some (wantedChannel includeBeta)))

/-- The first match of the list a request returned; a failed request comes with its error. -/
def fetchLatest (includeBeta : Bool) (response : Except String (List Release)) : Except String Release :=
  match response with
  | .error e => .error e
  | .ok releases =>
    match (releases.filter fun r => !r.draft).find?
        (fun r => decide (channelOf r.tagName = some (wantedChannel includeBeta))) with
    | some r => .ok r
    | none => .error ("no " ++ (if includeBeta then "beta" else "stable") ++ " releases found")

inductive UpdateDecision where
  | alreadyCurrent
  | notNewer
  | upgrade
  deriving DecidableEq

/-- The leading digits of a segment as a `u64`; 0 when there are none or too many. -/
def versionPart (p : List Char) : Nat :=
  let n := Nat.ofDigitChars 10 (p.takeWhile Char.isDigit) 0
  if n ≤ u64Max then n else 0

def versionParts (v : String) : List Nat := ((trimStartV v).splitOn '.').map versionPart

/-- The comparison loop from segment `i` on, with `left` segments to go. -/
def olderOrEqualFrom (pa pb : List Nat) : Nat → Nat → Bool
  | _, 0 => true
  | i, left + 1 =>
    if pa.getD i 0 ≠ pb.getD i 0 then decide (pa.getD i 0 < pb.getD i 0)
    else olderOrEqualFrom pa pb (i + 1) left

def versionOlderOrEqual (a b : String) : Bool :=
  olderOrEqualFrom (versionParts a) (versionParts b) 0
    (max (versionParts a).length (versionParts b).length)

/-- `decide` of the source. -/
def decideUpdate (latest current : String) : UpdateDecision :=
  if trimStartV latest = trimStartV current ∨ latest = current then .alreadyCurrent
  else if versionOlderOrEqual latest current then .notNewer
  else .upgrade

/-- A version as a sequence of segments, zero from its end on, in lexicographic order. -/
def versionKey (v : String) : Lex (Nat → Nat) := toLex fun i => (versionParts v).getD i 0

theorem toLex_lt_of_first {a b : Nat → Nat} {i : Nat} (agree : ∀ j < i, a j = b j) (h : a i < b i) :
    toLex a < toLex b :=
  ⟨i, agree, h⟩

theorem olderOrEqualFrom_iff {pa pb : List Nat} {i left : Nat}
    (agree : ∀ j < i, pa.getD j 0 = pb.getD j 0) (ha : pa.length ≤ i + left) (hb : pb.length ≤ i + left) :
    olderOrEqualFrom pa pb i left = true ↔
      toLex (fun j => pa.getD j 0) ≤ toLex (fun j => pb.getD j 0) := by
  induction left generalizing i with
  | zero =>
    have heq : (fun j => pa.getD j 0) = fun j => pb.getD j 0 := by
      funext j
      by_cases hj : j < i
      · exact agree j hj
      · rw [List.getD_eq_default _ _ (by omega), List.getD_eq_default _ _ (by omega)]
    exact iff_of_true rfl (le_of_eq (congrArg toLex heq))
  | succ left ih =>
    unfold olderOrEqualFrom
    split
    next hne =>
      rw [decide_eq_true_iff]
      constructor
      · intro hlt
        exact (toLex_lt_of_first agree hlt).le
      · intro hle
        refine lt_of_le_of_ne (not_lt.mp fun hgt => ?_) hne
        exact absurd (toLex_lt_of_first (fun j hj => (agree j hj).symm) hgt) (not_lt_of_ge hle)
    next heq =>
      refine ih (fun j hj => ?_) (by omega) (by omega)
      rcases Nat.lt_succ_iff_lt_or_eq.mp hj with hlt | rfl
      · exact agree j hlt
      · exact not_not.mp heq

/-- The comparison is the lexicographic order of the segments. -/
theorem versionOlderOrEqual_iff (a b : String) :
    versionOlderOrEqual a b = true ↔ versionKey a ≤ versionKey b :=
  olderOrEqualFrom_iff (fun j hj => absurd hj (Nat.not_lt_zero j)) (by omega) (by omega)

theorem versionKey_eq_of_trim {a b : String} (h : trimStartV a = trimStartV b) :
    versionKey a = versionKey b := by
  unfold versionKey versionParts
  rw [h]

/-- An upgrade is exactly a strictly later version. -/
theorem decideUpdate_eq_upgrade {latest current : String} :
    decideUpdate latest current = .upgrade ↔ versionKey current < versionKey latest := by
  unfold decideUpdate
  split
  next h =>
    have heq : versionKey latest = versionKey current :=
      h.elim versionKey_eq_of_trim (congrArg versionKey)
    exact iff_of_false (by simp) (heq ▸ lt_irrefl _)
  next =>
    split
    next h => exact iff_of_false (by simp) (not_lt_of_ge ((versionOlderOrEqual_iff _ _).mp h))
    next h => exact iff_of_true rfl (not_le.mp (mt (versionOlderOrEqual_iff _ _).mpr h))

/-- Upgrades chain, so no sequence of them comes back to a version it left. -/
theorem decideUpdate_trans {a b c : String} (hab : decideUpdate b a = .upgrade)
    (hbc : decideUpdate c b = .upgrade) : decideUpdate c a = .upgrade :=
  decideUpdate_eq_upgrade.mpr
    ((decideUpdate_eq_upgrade.mp hab).trans (decideUpdate_eq_upgrade.mp hbc))

/-- A chain of upgrades ends at a later version than the one it left. -/
theorem upgrade_chain_lt {current latest : String}
    (chain : Relation.TransGen (fun v w => decideUpdate w v = .upgrade) current latest) :
    versionKey current < versionKey latest := by
  induction chain with
  | single h => exact decideUpdate_eq_upgrade.mp h
  | tail _ h ih => exact ih.trans (decideUpdate_eq_upgrade.mp h)

/-- The comparison is a total preorder and an upgrade is its strict part, so a chain of upgrades never
comes back to the version it left. -/
theorem version_total_preorder :
    (∀ a, versionOlderOrEqual a a = true) ∧
    (∀ a b, versionOlderOrEqual a b = true ∨ versionOlderOrEqual b a = true) ∧
    (∀ a b c, versionOlderOrEqual a b = true → versionOlderOrEqual b c = true →
      versionOlderOrEqual a c = true) ∧
    (∀ a b, decideUpdate a b = .upgrade ↔
      versionOlderOrEqual b a = true ∧ versionOlderOrEqual a b = false) ∧
    (∀ a, decideUpdate a a ≠ .upgrade) ∧
    (∀ a b, decideUpdate a b = .upgrade → decideUpdate b a ≠ .upgrade) ∧
    (∀ a b c, decideUpdate a b = .upgrade → decideUpdate b c = .upgrade → decideUpdate a c = .upgrade) ∧
    ∀ v, ¬Relation.TransGen (fun current latest => decideUpdate latest current = .upgrade) v v := by
  simp only [← Bool.not_eq_true, versionOlderOrEqual_iff, not_le]
  refine ⟨fun a => le_rfl, fun a b => le_total _ _, fun a b c => le_trans, ?_, ?_, ?_, ?_, ?_⟩
  · intro a b
    rw [decideUpdate_eq_upgrade]
    exact ⟨fun h => ⟨h.le, h⟩, fun h => h.2⟩
  · intro a h
    exact lt_irrefl _ (decideUpdate_eq_upgrade.mp h)
  · intro a b hab hba
    exact lt_asymm (decideUpdate_eq_upgrade.mp hab) (decideUpdate_eq_upgrade.mp hba)
  · intro a b c hab hbc
    exact decideUpdate_trans hbc hab
  · intro v chain
    exact lt_irrefl _ (upgrade_chain_lt chain)

/-- The first eligible release of a list. -/
def Newest (includeBeta : Bool) (releases : List Release) (r : Release) : Prop :=
  r.Eligible includeBeta ∧ ∃ before after, releases = before ++ r :: after ∧
    ∀ b ∈ before, ¬b.Eligible includeBeta

theorem find?_undrafted (includeBeta : Bool) (releases : List Release) :
    (releases.filter fun r => !r.draft).find?
        (fun r => decide (channelOf r.tagName = some (wantedChannel includeBeta))) =
      releases.find? fun r => decide (r.Eligible includeBeta) := by
  rw [List.find?_filter]
  congr 1
  funext r
  cases h : r.draft <;> simp [Release.Eligible, h]

theorem fetchLatest_ok_iff {includeBeta : Bool} {response : Except String (List Release)} {r : Release} :
    fetchLatest includeBeta response = .ok r ↔
      ∃ releases, response = .ok releases ∧ Newest includeBeta releases r := by
  cases response with
  | error e => simp [fetchLatest]
  | ok releases =>
    have hnewest : releases.find? (fun r => decide (r.Eligible includeBeta)) = some r ↔
        Newest includeBeta releases r := by
      simp [List.find?_eq_some_iff_append, Newest]
    rw [fetchLatest, find?_undrafted]
    simp only [Except.ok.injEq, exists_eq_left', ← hnewest]
    split
    next r' h => simp [h]
    next h => simp [h]

end KeepAt

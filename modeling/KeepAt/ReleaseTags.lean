import KeepAt.TextSpan
import KeepAt.Updater

namespace KeepAt

def DigitString (s : List Char) : Prop := s ≠ [] ∧ ∀ c ∈ s, c.isDigit = true

/-- Digit strings between dots. -/
def NumericCore (s : List Char) : Prop := ∀ part ∈ s.splitOn '.', DigitString part

/-- A suffix that begins with `beta`, `rc` or `alpha` in any case. -/
def PreRelease (suffix : List Char) : Prop :=
  let s := suffix.map Char.toLower
  ("beta".toList.isPrefixOf s || "rc".toList.isPrefixOf s || "alpha".toList.isPrefixOf s) = true

/-- The tags of a channel, without the leading `v`s: two digit strings around a dot, or any number of them
and a pre-release suffix. -/
def TagShape : Channel → List Char → Prop
  | .stable, t => ∃ x y, t = x ++ '.' :: y ∧ DigitString x ∧ DigitString y
  | .beta, t => ∃ core suffix, t = core ++ '-' :: suffix ∧ NumericCore core ∧ PreRelease suffix

/-- The tag is only ever put in a channel, or selected for one, if it has the shape of that channel. -/
def FailsClosed (tag : String) : Prop :=
  (∀ channel, channelOf tag = some channel → TagShape channel (trimStartV tag)) ∧
    ∀ includeBeta response r, r.tagName = tag → fetchLatest includeBeta response = .ok r →
      TagShape (wantedChannel includeBeta) (trimStartV tag)

/-- The part before the first dash. -/
def versionCore (t : List Char) : List Char := t.takeWhile (· ≠ '-')

/-- The part after the first dash. -/
def versionSuffix (t : List Char) : List Char := (t.dropWhile (· ≠ '-')).drop 1

theorem DigitString.not_mem {s : List Char} (h : DigitString s) {c : Char} (hc : c.isDigit = false) : c ∉ s := by
  intro hmem
  rw [h.2 c hmem] at hc
  cases hc

theorem mem_intercalate {sep c : Char} {parts : List (List Char)} (h : c ∈ [sep].intercalate parts) :
    c = sep ∨ ∃ part ∈ parts, c ∈ part := by
  induction parts with
  | nil => simp at h
  | cons part rest ih =>
    cases rest with
    | nil => exact Or.inr ⟨part, List.mem_singleton_self _, by simpa using h⟩
    | cons next rest =>
      rw [List.intercalate_cons_cons, List.mem_append, List.mem_append, List.mem_singleton] at h
      rcases h with (h | h) | h
      · exact Or.inr ⟨part, List.mem_cons_self, h⟩
      · exact Or.inl h
      · rcases ih h with hsep | ⟨q, hq, hc⟩
        · exact Or.inl hsep
        · exact Or.inr ⟨q, List.mem_cons_of_mem _ hq, hc⟩

theorem NumericCore.not_mem {s : List Char} (h : NumericCore s) : '-' ∉ s := by
  intro hmem
  have hjoin : ['.'].intercalate (s.splitOn '.') = s := List.intercalate_splitOn '.'
  rw [← hjoin] at hmem
  rcases mem_intercalate hmem with hsep | ⟨part, hpart, hin⟩
  · exact absurd hsep (by decide)
  · exact (h part hpart).not_mem (by decide) hin

theorem versionCore_append {core : List Char} (h : '-' ∉ core) (suffix : List Char) :
    versionCore (core ++ '-' :: suffix) = core := takeWhile_ne_append_cons h suffix

theorem versionSuffix_append {core : List Char} (h : '-' ∉ core) (suffix : List Char) :
    versionSuffix (core ++ '-' :: suffix) = suffix := by
  rw [versionSuffix, dropWhile_ne_append_cons h, List.drop_one, List.tail_cons]

theorem versionCore_of_not_mem {t : List Char} (h : '-' ∉ t) : versionCore t = t := takeWhile_ne_of_not_mem h

/-- With a suffix the tag is beta or nothing. -/
theorem channelOf_suffix {tag : String} (h : '-' ∈ trimStartV tag) (channel : Channel) :
    channelOf tag = some channel ↔ channel = .beta ∧ PreRelease (versionSuffix (trimStartV tag)) := by
  by_cases hp : PreRelease (versionSuffix (trimStartV tag))
  next =>
    have hbeta : channelOf tag = some .beta := (if_pos h).trans (if_pos hp)
    rw [hbeta, Option.some.injEq, and_iff_left hp, eq_comm]
  next =>
    have hnone : channelOf tag = none := (if_pos h).trans (if_neg hp)
    simp [hnone, hp]

/-- Without one it is stable or nothing, by the number of its parts alone. -/
theorem channelOf_plain {tag : String} (h : '-' ∉ trimStartV tag) (channel : Channel) :
    channelOf tag = some channel ↔ channel = .stable ∧ ((trimStartV tag).splitOn '.').length = 2 := by
  by_cases hp : ((trimStartV tag).splitOn '.').length = 2
  next =>
    have hstable : channelOf tag = some .stable := (if_neg h).trans (if_pos hp)
    rw [hstable, Option.some.injEq, and_iff_left hp, eq_comm]
  next =>
    have hnone : channelOf tag = none := (if_neg h).trans (if_neg hp)
    simp [hnone, hp]

theorem tagShape_beta_iff {core suffix : List Char} (hcore : '-' ∉ core) (hsuffix : PreRelease suffix) :
    TagShape .beta (core ++ '-' :: suffix) ↔ NumericCore core := by
  constructor
  · rintro ⟨core', suffix', heq, hnum, -⟩
    have h := congrArg versionCore heq
    rw [versionCore_append hcore, versionCore_append hnum.not_mem] at h
    exact h ▸ hnum
  · exact fun h => ⟨core, suffix, rfl, h, hsuffix⟩

theorem tagShape_stable_iff {t : List Char} (h : (t.splitOn '.').length = 2) :
    TagShape .stable t ↔ NumericCore t := by
  constructor
  · rintro ⟨x, y, rfl, hx, hy⟩
    have hsplit : (x ++ '.' :: y).splitOn '.' = [x, y] := by
      rw [List.splitOn_append_cons_self, List.splitOn_eq_singleton (hx.not_mem (by decide)),
        List.splitOn_eq_singleton (hy.not_mem (by decide))]
      rfl
    intro part hpart
    rw [hsplit] at hpart
    rcases List.mem_pair.mp hpart with rfl | rfl
    · exact hx
    · exact hy
  · intro hnum
    obtain ⟨x, y, hsplit⟩ := List.length_eq_two.mp h
    have ht : ['.'].intercalate (t.splitOn '.') = t := List.intercalate_splitOn '.'
    rw [hsplit] at ht
    refine ⟨x, y, ?_, hnum x (by simp [hsplit]), hnum y (by simp [hsplit])⟩
    rw [← ht]
    simp [List.intercalate_cons_cons]

/-- What is selected has been put in the channel. -/
theorem failsClosed_iff (tag : String) :
    FailsClosed tag ↔ ∀ channel, channelOf tag = some channel → TagShape channel (trimStartV tag) := by
  constructor
  · exact And.left
  · refine fun h => ⟨h, fun includeBeta response r htag hfetch => ?_⟩
    obtain ⟨releases, -, ⟨-, hchannel⟩, -⟩ := fetchLatest_ok_iff.mp hfetch
    rw [htag] at hchannel
    exact h _ hchannel

/-- Channels fail closed exactly on the tags whose version part is numeric and on those that are left out
for their suffix or for the number of their parts. -/
theorem channelOf_failsClosed_iff (tag : String) :
    FailsClosed tag ↔
      NumericCore (versionCore (trimStartV tag)) ∨
      ('-' ∈ trimStartV tag ∧ ¬ PreRelease (versionSuffix (trimStartV tag))) ∨
      ('-' ∉ trimStartV tag ∧ ((trimStartV tag).splitOn '.').length ≠ 2) := by
  rw [failsClosed_iff]
  by_cases hdash : '-' ∈ trimStartV tag
  next =>
    simp only [channelOf_suffix hdash]
    obtain ⟨core, suffix, ht, hcore⟩ := List.eq_append_cons_of_mem hdash
    rw [ht, versionCore_append hcore, versionSuffix_append hcore]
    by_cases hp : PreRelease suffix
    next => simp [hp, tagShape_beta_iff hcore hp]
    next => simp [hp]
  next =>
    simp only [channelOf_plain hdash, versionCore_of_not_mem hdash]
    by_cases hlen : ((trimStartV tag).splitOn '.').length = 2
    next => simp [hlen, hdash, tagShape_stable_iff hlen]
    next => simp [hlen, hdash]

/-- `v0.x` is put in the stable channel. -/
theorem channelOf_unparseable_stable : ¬ ∀ tag : String, FailsClosed tag := by
  intro h
  have hshape := (h "v0.x").1 .stable (by decide)
  have hnum := (tagShape_stable_iff (by decide)).mp hshape
  exact absurd ((hnum ['x'] (by decide)).2 'x' (List.mem_singleton_self _)) (by decide)

end KeepAt

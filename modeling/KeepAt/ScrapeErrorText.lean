import KeepAt.ConfigFields
import KeepAt.RateLimitText

namespace KeepAt

/-- Of three digits, only 429 is written so. -/
theorem limitNumber_infix_toDigits_iff {n : Nat} (h : n < 1000) :
    limitNumber <:+: Nat.toDigits 10 n ↔ n = 429 := by
  constructor
  · intro hinfix
    have hlength : (Nat.toDigits 10 n).length ≤ 3 :=
      (Nat.length_toDigits_le_iff (by norm_num) (by norm_num)).mpr h
    have heq := hinfix.eq_of_length_le hlength
    have hvalue := Nat.ofDigitChars_ten_toDigits (n := n)
    rw [← heq] at hvalue
    exact hvalue.symm
  · rintro rfl
    decide

variable {reason : Nat → String}

/-- After a blank, a status shows its number and its reason. -/
theorem marked_status_iff (status : StatusCode) :
    Marked (' ' :: (status.text reason).toList) ↔ status.code = 429 ∨ Marked (reason status.code).toList := by
  have hchars : ' ' :: (status.text reason).toList
      = [] ++ ' ' :: (Nat.toDigits 10 status.code ++ ' ' :: (reason status.code).toList) := by
    simp [StatusCode.text]
  have hblank : ' ' ∉ limitNumber := by decide
  have hdigits : 't' ∉ (' ' :: Nat.toDigits 10 status.code ++ [' ']).map Char.toLower := by
    intro hmem
    obtain ⟨c, hc, hlower⟩ := List.mem_map.mp hmem
    rcases List.mem_append.mp hc with hc | hc
    · rcases List.mem_cons.mp hc with rfl | hc
      · exact absurd hlower (by decide)
      · rw [toLower_of_isNumberChar (isNumberChar_of_mem_toDigits hc)] at hlower
        exact absurd (isDigit_of_mem_toDigits (hlower ▸ hc)) (by decide)
    · rw [List.mem_singleton.mp hc] at hlower
      exact absurd hlower (by decide)
  have hnumber : limitNumber <:+: ' ' :: (status.text reason).toList ↔
      status.code = 429 ∨ limitNumber <:+: (reason status.code).toList := by
    rw [hchars, infix_append_cons_of_notMem hblank, infix_append_cons_of_notMem hblank,
      limitNumber_infix_toDigits_iff status.threeDigits.2]
    exact or_iff_right (by decide)
  have hphrase : limitPhrase <:+: (' ' :: (status.text reason).toList).map Char.toLower ↔
      limitPhrase <:+: (reason status.code).toList.map Char.toLower := by
    have hsplit : (' ' :: (status.text reason).toList).map Char.toLower
        = (' ' :: Nat.toDigits 10 status.code ++ [' ']).map Char.toLower
          ++ (reason status.code).toList.map Char.toLower := by
      rw [hchars]
      simp
    rw [hsplit]
    exact infix_append_of_startsClear (startsClear_of_head_notMem hdigits)
  unfold Marked
  rw [hnumber, hphrase, or_assoc]

theorem marked_returned_iff (scrapeUrl : String) (status : StatusCode) :
    Marked ("scrape " ++ scrapeUrl ++ " returned " ++ status.text reason).toList ↔
      Marked scrapeUrl.toList ∨ status.code = 429 ∨ Marked (reason status.code).toList := by
  have hchars : ("scrape " ++ scrapeUrl ++ " returned " ++ status.text reason).toList
      = "scrape ".toList ++ ((scrapeUrl.toList ++ " returne".toList) ++ 'd' :: ' ' ::
        (status.text reason).toList) := by
    simp
  rw [hchars, marked_append_of_startsClear (by decide) (by decide),
    marked_append_cons (by decide) (by decide),
    marked_append_of_endsClear (by decide) (by decide), marked_status_iff]

theorem marked_requested_iff (scrapeUrl : String) :
    Marked ("scrape request to " ++ scrapeUrl).toList ↔ Marked scrapeUrl.toList := by
  rw [String.toList_append]
  exact marked_append_of_startsClear (by decide) (by decide)

theorem marked_undecoded_iff (text : String) :
    Marked ("decoding scrape response: " ++ text).toList ↔ Marked text.toList := by
  rw [String.toList_append]
  exact marked_append_of_startsClear (by decide) (by decide)

theorem decodeScrapeResponse_unmarked {v : Bencode} {infoHash : InfoHash} {e : ErrorChain}
    (h : decodeScrapeResponse (.ok v) infoHash = .error e) : ¬∃ t ∈ e, Marked t.toList := by
  have hfixed : e = ["scrape response had no entry for the requested hash"] ∨
      e = ["scrape response has no files dict"] ∨ e = ["scrape response is not a dict"] := by
    unfold decodeScrapeResponse at h
    split at h
    next hbody => cases hbody
    next =>
      split at h
      next =>
        dsimp only at h
        split at h
        next => cases h
        next => exact Or.inl (Except.error.inj h).symm
      next => exact Or.inr (Or.inl (Except.error.inj h).symm)
    next => exact Or.inr (Or.inr (Except.error.inj h).symm)
  rcases hfixed with rfl | rfl | rfl <;> decide

/-- The tracker was asked, and answered that there were too many requests. -/
def AnsweredTooMany (tracker : String) (reply : TrackerReply) : Prop :=
  isHttp tracker = true ∧ (deriveHttpScrapeUrl tracker).isSome = true ∧
    ∃ status body, reply = .answered status body ∧ status.code = 429

/-- What the text of an error may show of the scrape, its URL or the text of another error, is not marked. -/
def UnmarkedReply (scrapeUrl : String) : TrackerReply → Prop
  | .timedOut => True
  | .unsent causes => ¬Marked scrapeUrl.toList ∧ ∀ t ∈ causes, ¬Marked t.toList
  | .answered status body =>
    if !status.isSuccess then status.code = 429 ∨ ¬Marked scrapeUrl.toList
    else
      match body with
      | .error causes => ∀ t ∈ causes, ¬Marked t.toList
      | .ok (.error text) => ¬Marked text.toList
      | .ok (.ok _) => True

def UnmarkedScrape (tracker : String) (reply : TrackerReply) : Prop :=
  isHttp tracker = true → ∀ scrapeUrl, deriveHttpScrapeUrl tracker = some scrapeUrl →
    UnmarkedReply scrapeUrl reply

variable {tracker : String} {infoHash : InfoHash} {reply : TrackerReply}

theorem AnsweredTooMany.unmarked (h : AnsweredTooMany tracker reply) : UnmarkedScrape tracker reply := by
  obtain ⟨-, -, status, body, rfl, hcode⟩ := h
  intro _ scrapeUrl _
  have hfailed : (!status.isSuccess) = true := by simp [StatusCode.isSuccess, hcode]
  unfold UnmarkedReply
  dsimp only
  rw [if_pos hfailed]
  exact Or.inl hcode

/-- An error of the scrape is marked. -/
def MarkedScrape (reason : Nat → String) (tracker : String) (infoHash : InfoHash) (reply : TrackerReply) : Prop :=
  ∃ e, scrapeHttp reason tracker infoHash reply = some (.error e) ∧ ∃ t ∈ e, Marked t.toList

theorem markedScrape_iff_of_error {e : ErrorChain}
    (h : scrapeHttp reason tracker infoHash reply = some (.error e)) :
    MarkedScrape reason tracker infoHash reply ↔ ∃ t ∈ e, Marked t.toList := by
  constructor
  · rintro ⟨e', he', hmarked⟩
    rw [h] at he'
    cases he'
    exact hmarked
  · exact fun hmarked => ⟨e, h, hmarked⟩

theorem not_markedScrape_of_none (h : scrapeHttp reason tracker infoHash reply = none) :
    ¬MarkedScrape reason tracker infoHash reply := by
  rintro ⟨e, he, -⟩
  rw [h] at he
  cases he

theorem exists_marked_cons {t : String} {e : ErrorChain} :
    (∃ u ∈ t :: e, Marked u.toList) ↔ Marked t.toList ∨ ∃ u ∈ e, Marked u.toList :=
  List.exists_mem_cons_iff (fun u : String => Marked u.toList) t e

theorem not_unmarked_iff {causes : ErrorChain} :
    (¬∀ t ∈ causes, ¬Marked t.toList) ↔ ∃ t ∈ causes, Marked t.toList := by
  simp

section Asked

variable {scrapeUrl : String}

theorem markedScrape_unsent (url : deriveHttpScrapeUrl tracker = some scrapeUrl) (causes : ErrorChain) :
    MarkedScrape reason tracker infoHash (.unsent causes) ↔ ¬UnmarkedReply scrapeUrl (.unsent causes) := by
  have herror : scrapeHttp reason tracker infoHash (.unsent causes) =
      some (.error (("scrape request to " ++ scrapeUrl) :: causes)) := by
    simp only [scrapeHttp, url]
  rw [markedScrape_iff_of_error herror, exists_marked_cons, marked_requested_iff, UnmarkedReply, not_and_or,
    not_not, not_unmarked_iff]

theorem markedScrape_refused (url : deriveHttpScrapeUrl tracker = some scrapeUrl) {status : StatusCode}
    (refused : (!status.isSuccess) = true) (body : Except ErrorChain (Except String Bencode))
    (reasons : ∀ code, code ≠ 429 → ¬Marked (reason code).toList) :
    MarkedScrape reason tracker infoHash (.answered status body) ↔
      status.code = 429 ∨ ¬UnmarkedReply scrapeUrl (.answered status body) := by
  have herror : scrapeHttp reason tracker infoHash (.answered status body) =
      some (.error ["scrape " ++ scrapeUrl ++ " returned " ++ status.text reason]) := by
    simp only [scrapeHttp, url, if_pos refused]
  have hreason : status.code = 429 ∨ Marked (reason status.code).toList ↔ status.code = 429 :=
    or_iff_left_of_imp fun hmarked => by_contra fun hcode => reasons status.code hcode hmarked
  have hunmarked : UnmarkedReply scrapeUrl (.answered status body) ↔
      status.code = 429 ∨ ¬Marked scrapeUrl.toList := by
    simp only [UnmarkedReply, if_pos refused]
  rw [markedScrape_iff_of_error herror, exists_marked_cons, marked_returned_iff, hreason, hunmarked, not_or,
    not_not]
  have hnone : ¬∃ u ∈ ([] : ErrorChain), Marked u.toList := by simp
  constructor
  · rintro ((hurl | hcode) | h)
    · by_cases hcode : status.code = 429
      · exact Or.inl hcode
      · exact Or.inr ⟨hcode, hurl⟩
    · exact Or.inl hcode
    · exact absurd h hnone
  · rintro (hcode | ⟨-, hurl⟩)
    · exact Or.inl (Or.inr hcode)
    · exact Or.inl (Or.inl hurl)

theorem markedScrape_accepted (url : deriveHttpScrapeUrl tracker = some scrapeUrl) {status : StatusCode}
    (accepted : ¬(!status.isSuccess) = true) (body : Except ErrorChain (Except String Bencode)) :
    MarkedScrape reason tracker infoHash (.answered status body) ↔
      ¬UnmarkedReply scrapeUrl (.answered status body) := by
  rcases body with causes | text | v
  · have herror : scrapeHttp reason tracker infoHash (.answered status (.error causes)) =
        some (.error ("reading scrape response" :: causes)) := by
      simp only [scrapeHttp, url, if_neg accepted]
    have hcontext : ¬Marked "reading scrape response".toList := by decide
    have hunmarked : UnmarkedReply scrapeUrl (.answered status (.error causes)) ↔
        ∀ t ∈ causes, ¬Marked t.toList := by
      simp only [UnmarkedReply, if_neg accepted]
    rw [markedScrape_iff_of_error herror, exists_marked_cons, hunmarked, not_unmarked_iff]
    exact or_iff_right hcontext
  · have herror : scrapeHttp reason tracker infoHash (.answered status (.ok (.error text))) =
        some (.error ["decoding scrape response: " ++ text]) := by
      simp only [scrapeHttp, url, if_neg accepted, decodeScrapeResponse]
    have hunmarked : UnmarkedReply scrapeUrl (.answered status (.ok (.error text))) ↔ ¬Marked text.toList := by
      simp only [UnmarkedReply, if_neg accepted]
    rw [markedScrape_iff_of_error herror, exists_marked_cons, marked_undecoded_iff, hunmarked, not_not]
    exact or_iff_left (by simp)
  · have hdecoded : scrapeHttp reason tracker infoHash (.answered status (.ok (.ok v))) =
        some (decodeScrapeResponse (.ok v) infoHash) := by
      simp only [scrapeHttp, url, if_neg accepted]
    have hunmarked : UnmarkedReply scrapeUrl (.answered status (.ok (.ok v))) := by
      simp only [UnmarkedReply, if_neg accepted]
    refine iff_of_false ?_ (not_not.mpr hunmarked)
    rintro ⟨e, he, hmarked⟩
    rw [hdecoded] at he
    exact decodeScrapeResponse_unmarked (Option.some.inj he) hmarked

end Asked

/-- An error of the scrape is marked when the tracker answered 429, and otherwise when something that its
text shows is. -/
theorem markedScrape_iff (http : isHttp tracker = true)
    (reasons : ∀ code, code ≠ 429 → ¬Marked (reason code).toList) :
    MarkedScrape reason tracker infoHash reply ↔
      AnsweredTooMany tracker reply ∨ ¬UnmarkedScrape tracker reply := by
  cases hurl : deriveHttpScrapeUrl tracker with
  | none =>
    have herror : scrapeHttp reason tracker infoHash reply =
        some (.error ["tracker does not follow the announce/scrape URL convention"]) := by
      simp only [scrapeHttp, hurl]
    rw [markedScrape_iff_of_error herror]
    refine iff_of_false (by decide) (not_or.mpr ⟨fun h => ?_, not_not.mpr fun _ scrapeUrl hsome => ?_⟩)
    · rw [AnsweredTooMany, hurl] at h
      exact absurd h.2.1 (by simp)
    · rw [hurl] at hsome
      cases hsome
  | some scrapeUrl =>
    have hunmarked : UnmarkedScrape tracker reply ↔ UnmarkedReply scrapeUrl reply := by
      refine ⟨fun h => h http scrapeUrl hurl, fun h _ url' hurl' => ?_⟩
      rw [hurl] at hurl'
      exact Option.some.inj hurl' ▸ h
    have hanswered : AnsweredTooMany tracker reply ↔
        ∃ status body, reply = .answered status body ∧ status.code = 429 :=
      ⟨fun h => h.2.2, fun h => ⟨http, by rw [hurl]; rfl, h⟩⟩
    rw [hunmarked, hanswered]
    cases reply with
    | timedOut =>
      have hnone : scrapeHttp reason tracker infoHash .timedOut = none := by simp only [scrapeHttp, hurl]
      exact iff_of_false (not_markedScrape_of_none hnone) (by simp [UnmarkedReply])
    | unsent causes =>
      rw [markedScrape_unsent hurl]
      exact (or_iff_right (by simp)).symm
    | answered status body =>
      have hcode : (∃ status' body', TrackerReply.answered status body = .answered status' body' ∧
          status'.code = 429) ↔ status.code = 429 := by
        constructor
        · rintro ⟨status', body', heq, h⟩
          cases heq
          exact h
        · exact fun h => ⟨status, body, rfl, h⟩
      rw [hcode]
      by_cases hsuccess : (!status.isSuccess) = true
      · exact markedScrape_refused hurl hsuccess body reasons
      · rw [markedScrape_accepted hurl hsuccess]
        refine (or_iff_right fun h => hsuccess ?_).symm
        simp [StatusCode.isSuccess, h]

end KeepAt

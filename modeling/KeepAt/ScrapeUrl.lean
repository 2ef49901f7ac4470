import KeepAt.AtTraffic
import KeepAt.UrlText

namespace KeepAt

def upperHexDigit (n : Nat) : Char := if n < 10 then Char.ofNat (48 + n) else Char.ofNat (55 + n)

/-- Every byte as `%` and two upper-case digits. -/
def percentEncode (bytes : List UInt8) : List Char :=
  bytes.flatMap fun b => ['%', upperHexDigit (b.toNat / 16), upperHexDigit (b.toNat % 16)]

def percentDecode : List Char → List UInt8
  | '%' :: a :: b :: rest =>
    match hexValue a, hexValue b with
    | some hi, some lo => UInt8.ofNat (16 * hi + lo) :: percentDecode rest
    | _, _ => 37 :: percentDecode (a :: b :: rest)
  | c :: rest => String.utf8EncodeChar c ++ percentDecode rest
  | [] => []

/-- The URL that `scrape_http` requests. -/
def scrapeRequestUrl (announceUrl : String) (infoHash : InfoHash) : Option String :=
  (deriveHttpScrapeUrl announceUrl).map fun scrapeUrl =>
    scrapeUrl ++ "?info_hash=" ++ String.ofList (percentEncode infoHash.bytes)

theorem hexValue_upperHexDigit : ∀ n < 16, hexValue (upperHexDigit n) = some n := by decide

theorem percentDecode_percentEncode (bytes : List UInt8) : percentDecode (percentEncode bytes) = bytes := by
  induction bytes with
  | nil => rfl
  | cons b bytes ih =>
    have hb := b.toNat_lt
    rw [percentEncode, List.flatMap_cons, List.cons_append, List.cons_append, List.cons_append, List.nil_append,
      percentDecode, hexValue_upperHexDigit _ (by omega), hexValue_upperHexDigit _ (by omega)]
    dsimp only
    rw [ofNat_nibbles]
    exact congrArg (b :: ·) ih

theorem upperHexDigit_plain : ∀ n < 16, upperHexDigit n ≠ '&' ∧ upperHexDigit n ≠ '=' := by decide

theorem percentEncode_plain (bytes : List UInt8) : '&' ∉ percentEncode bytes := by
  intro hmem
  obtain ⟨b, -, hb⟩ := List.mem_flatMap.mp hmem
  have hlt := b.toNat_lt
  have hhi := (upperHexDigit_plain (b.toNat / 16) (by omega)).1
  have hlo := (upperHexDigit_plain (b.toNat % 16) (by omega)).1
  simp only [List.mem_cons, List.not_mem_nil, or_false] at hb
  rcases hb with hb | hb | hb
  · exact absurd hb (by decide)
  · exact hhi hb.symm
  · exact hlo hb.symm

/-- The first occurrence is replaced. -/
theorem replaceFirst_append {old new before after : List Char} (hne : old ≠ [])
    (hfirst : ∀ a b, before ++ (old ++ after) = a ++ (old ++ b) → before.length ≤ a.length) :
    replaceFirst old new (before ++ (old ++ after)) = before ++ (new ++ after) := by
  induction before with
  | nil =>
    obtain ⟨c, cs, rfl⟩ := List.exists_cons_of_ne_nil hne
    have hinitial : (c :: cs).isPrefixOf (c :: (cs ++ after)) = true :=
      List.isPrefixOf_iff_prefix.mpr (List.prefix_append _ _)
    rw [List.nil_append, List.cons_append, replaceFirst, if_pos hinitial]
    simp
  | cons d before ih =>
    have hnot : ¬ old.isPrefixOf (d :: (before ++ (old ++ after))) = true := by
      intro h
      obtain ⟨b, hb⟩ := List.isPrefixOf_iff_prefix.mp h
      have hle := hfirst [] b (by rw [List.nil_append, hb]; rfl)
      simp at hle
    rw [List.cons_append, replaceFirst, if_neg hnot, ih fun a b h => ?_]
    · rfl
    · have hle := hfirst (d :: a) b (by rw [List.cons_append, List.cons_append, h])
      simpa using hle

theorem containsText_ofList (l : List Char) (needle : String) :
    containsText (String.ofList l) needle = decide (needle.toList <:+: l) := by
  rw [containsText, String.toList_ofList]

def announceWord : List Char := "announce".toList

theorem announceWord_eq : "announce".toList = announceWord := rfl

def scrapeWord : List Char := "scrape".toList

/-- The segment after the last slash is the one that is looked at. -/
theorem deriveHttpScrapeUrl_eq {segment : List Char} (front : List Char) (h : '/' ∉ segment) :
    deriveHttpScrapeUrl (String.ofList (front ++ '/' :: segment)) =
      if announceWord <:+: segment then
        some (String.ofList (front ++ '/' :: replaceFirst announceWord scrapeWord segment))
      else none := by
  have hlast : ((front ++ '/' :: segment).reverse.takeWhile (· ≠ '/')).reverse = segment := by
    have hrev : (front ++ '/' :: segment).reverse = segment.reverse ++ '/' :: front.reverse := by simp
    rw [hrev, takeWhile_ne_append_cons (by simpa using h), List.reverse_reverse]
  have htake : (front ++ '/' :: segment).take ((front ++ '/' :: segment).length - segment.length) =
      front ++ ['/'] := by
    have hsplit : front ++ '/' :: segment = front ++ ['/'] ++ segment := by simp
    rw [hsplit, List.length_append, Nat.add_sub_cancel, List.take_left]
  have hmem : '/' ∈ front ++ '/' :: segment := by simp
  have hfound : containsText (String.ofList segment) "announce" = decide (announceWord <:+: segment) := by
    rw [containsText_ofList]
    exact congrArg (fun word => decide (word <:+: segment)) announceWord_eq
  rw [deriveHttpScrapeUrl, String.toList_ofList]
  simp only [hlast, hfound, htake]
  by_cases hann : announceWord <:+: segment
  next =>
    have hcond : ¬ ('/' ∉ front ++ '/' :: segment ∨ (!decide (announceWord <:+: segment)) = true) := by
      rw [decide_eq_true hann]
      exact not_or.mpr ⟨not_not.mpr hmem, Bool.false_ne_true⟩
    rw [if_neg hcond, if_pos hann, List.append_assoc, List.singleton_append]
    rfl
  next =>
    have hcond : '/' ∉ front ++ '/' :: segment ∨ (!decide (announceWord <:+: segment)) = true := by
      rw [decide_eq_false hann]
      exact Or.inr rfl
    rw [if_pos hcond, if_neg hann]

def infoHashName : List Char := "info_hash".toList

/-- An announce URL: the last segment of its path is cut at its first `announce`, and its query is free. -/
structure AnnounceUrl where
  scheme : List Char
  host : List Char
  dir : List Char
  before : List Char
  after : List Char
  query : Option (List Char)
  scheme_colon : ':' ∉ scheme
  host_slash : '/' ∉ host
  host_query : '?' ∉ host
  dir_slash : dir = [] ∨ dir.head? = some '/'
  path_query : '?' ∉ dir ++ (before ++ after)
  segment_slash : '/' ∉ before ++ after
  first : ∀ a b, before ++ (announceWord ++ after) = a ++ (announceWord ++ b) → before.length ≤ a.length
  no_fragment : '#' ∉ scheme ++ (host ++ (dir ++ (before ++ (after ++ query.getD []))))

namespace AnnounceUrl

variable (u : AnnounceUrl)

/-- The URL with this word in place of the first `announce`. -/
def parts (word : List Char) (query : Option (List Char)) : UrlParts :=
  ⟨u.scheme, u.host, u.dir ++ '/' :: (u.before ++ (word ++ u.after)), query⟩

def text : String := String.ofList (u.parts announceWord u.query).render

theorem parts_plain {word : List Char} (h : '?' ∉ word) (query : Option (List Char)) : (u.parts word query).Plain := by
  have hpath := u.path_query
  simp only [List.mem_append, not_or] at hpath
  refine ⟨u.scheme_colon, u.host_slash, u.host_query, ?_, ?_⟩
  · rcases u.dir_slash with hdir | hdir
    · simp [parts, hdir]
    · simp [parts, List.head?_append, hdir]
  · simp only [parts, List.mem_append, List.mem_cons, not_or]
    exact ⟨hpath.1, by decide, hpath.2.1, h, hpath.2.2⟩

end AnnounceUrl

/-- Exactly one parameter has that name, and it decodes to the hash. -/
def OneInfoHash (infoHash : InfoHash) (query : List Char) : Prop :=
  ∃ param, (queryParams query).filter (fun p => paramName p = infoHashName) = [param] ∧
    percentDecode (paramValue param) = infoHash.bytes

/-- What the request for a hash should be: the same URL, `scrape` in place of the first `announce` of the
last segment, every parameter kept, and one `info_hash` that decodes to the hash. -/
def WellFormedScrape (u : AnnounceUrl) (infoHash : InfoHash) : Prop :=
  ∃ url v query, scrapeRequestUrl u.text infoHash = some url ∧ parseUrl url.toList = some v ∧
    v.scheme = u.scheme ∧ v.host = u.host ∧
    v.path = u.dir ++ '/' :: (u.before ++ (scrapeWord ++ u.after)) ∧ v.query = some query ∧
    (u.query.elim [] queryParams).Sublist (queryParams query) ∧ OneInfoHash infoHash query

/-- Nothing that follows makes an earlier first occurrence. -/
theorem first_append {word before after : List Char}
    (hfirst : ∀ a b, before ++ (word ++ after) = a ++ (word ++ b) → before.length ≤ a.length) (more : List Char) :
    ∀ a b, before ++ (word ++ (after ++ more)) = a ++ (word ++ b) → before.length ≤ a.length := by
  intro a b h
  by_contra hlt
  have hcut := congrArg (List.take (before.length + (word.length + after.length))) h
  have hleft : (before ++ (word ++ (after ++ more))).take (before.length + (word.length + after.length)) =
      before ++ (word ++ after) := by
    rw [List.take_length_add_append, List.take_length_add_append, List.take_left]
  have hright : (a ++ (word ++ b)).take (before.length + (word.length + after.length)) =
      a ++ (word ++ b.take (before.length + after.length - a.length)) := by
    have hlen : before.length + (word.length + after.length) =
        a.length + (word.length + (before.length + after.length - a.length)) := by omega
    rw [hlen, List.take_length_add_append, List.take_length_add_append]
  rw [hleft, hright] at hcut
  exact hlt (hfirst _ _ hcut)

theorem infoHashKey_eq : "?info_hash=" = String.ofList ('?' :: (infoHashName ++ ['='])) := by
  apply String.toList_inj.mp
  rw [String.toList_ofList]
  decide

def infoHashParam (infoHash : InfoHash) : List Char := infoHashName ++ '=' :: percentEncode infoHash.bytes

theorem infoHashParam_spec (infoHash : InfoHash) :
    '&' ∉ infoHashParam infoHash ∧ paramName (infoHashParam infoHash) = infoHashName ∧
      percentDecode (paramValue (infoHashParam infoHash)) = infoHash.bytes := by
  have hname : '=' ∉ infoHashName := by decide
  have hamp : '&' ∉ infoHashName := by decide
  refine ⟨?_, takeWhile_ne_append_cons hname _, ?_⟩
  · simp only [infoHashParam, List.mem_append, List.mem_cons, not_or]
    exact ⟨hamp, by decide, percentEncode_plain _⟩
  · rw [paramValue, infoHashParam, dropWhile_ne_append_cons hname, List.drop_one, List.tail_cons,
      percentDecode_percentEncode]

namespace AnnounceUrl

variable (u : AnnounceUrl) (infoHash : InfoHash)

/-- The query the request gets: what is appended follows a second question mark if there was a query. -/
def requestQuery : List Char :=
  match u.query with
  | none => infoHashParam infoHash
  | some query => query ++ '?' :: infoHashParam infoHash

theorem scrapeRequestUrl_append (s : List Char) (announceUrl : String)
    (h : deriveHttpScrapeUrl announceUrl = some (String.ofList s)) :
    scrapeRequestUrl announceUrl infoHash = some (String.ofList (s ++ '?' :: infoHashParam infoHash)) := by
  rw [scrapeRequestUrl, h, Option.map_some, infoHashKey_eq, ← String.ofList_append, ← String.ofList_append,
    infoHashParam]
  simp only [List.append_assoc, List.cons_append, List.nil_append]

/-- The text before the last segment, up to its slash. -/
def front : List Char := u.scheme ++ ("://".toList ++ (u.host ++ u.dir))

theorem render_parts (word : List Char) (query : Option (List Char)) :
    (u.parts word query).render =
      u.front ++ '/' :: (u.before ++ (word ++ (u.after ++ query.elim [] ('?' :: ·)))) := by
  simp only [UrlParts.render, parts, front, List.append_assoc, List.cons_append]

/-- Without a slash in the query the path is rewritten as it should be. -/
theorem scrapeRequestUrl_of_plain (h : ∀ query, u.query = some query → '/' ∉ query) :
    scrapeRequestUrl u.text infoHash =
      some (String.ofList (u.parts scrapeWord (some (u.requestQuery infoHash))).render) := by
  have hquery : '/' ∉ u.query.elim [] ('?' :: ·) := by
    cases hq : u.query with
    | none => exact List.not_mem_nil
    | some query => exact List.not_mem_cons_of_ne_of_not_mem (by decide) (h query hq)
  have hsegment : '/' ∉ u.before ++ (announceWord ++ (u.after ++ u.query.elim [] ('?' :: ·))) := by
    have hslash := u.segment_slash
    have hword : '/' ∉ announceWord := by decide
    simp only [List.mem_append, not_or] at hslash ⊢
    exact ⟨hslash.1, hword, hslash.2, hquery⟩
  have hfound : announceWord <:+: u.before ++ (announceWord ++ (u.after ++ u.query.elim [] ('?' :: ·))) :=
    ⟨u.before, u.after ++ u.query.elim [] ('?' :: ·), by rw [List.append_assoc]⟩
  have hderive := deriveHttpScrapeUrl_eq u.front hsegment
  rw [if_pos hfound, ← render_parts,
    replaceFirst_append (by decide) (first_append u.first _)] at hderive
  rw [text, scrapeRequestUrl_append infoHash _ _ hderive, render_parts, requestQuery]
  cases u.query <;> simp only [Option.elim_none, Option.elim_some, List.append_assoc, List.cons_append,
    List.append_nil]

/-- With a slash in the query, what follows it is taken for the last segment and the path stays. -/
theorem scrapeRequestUrl_of_slash {query : List Char} (hq : u.query = some query) (h : '/' ∈ query) {url : String}
    (hurl : scrapeRequestUrl u.text infoHash = some url) :
    ∃ query', url = String.ofList (u.parts announceWord (some query')).render := by
  obtain ⟨front, segment, rfl, hsegment⟩ : ∃ front segment, query = front ++ '/' :: segment ∧ '/' ∉ segment := by
    obtain ⟨segment, front, hrev, hnot⟩ := List.eq_append_cons_of_mem (List.mem_reverse.mpr h)
    exact ⟨front.reverse, segment.reverse, by simpa using congrArg List.reverse hrev, by simpa using hnot⟩
  have htext : u.text = String.ofList
      ((u.parts announceWord (some front)).render ++ '/' :: segment) := by
    rw [text, hq, render_parts, render_parts]
    simp only [Option.elim_some, List.append_assoc, List.cons_append]
  have hderive := deriveHttpScrapeUrl_eq (u.parts announceWord (some front)).render hsegment
  rw [← htext] at hderive
  split at hderive
  next =>
    rw [scrapeRequestUrl_append infoHash _ _ hderive] at hurl
    refine ⟨front ++ '/' :: (replaceFirst announceWord scrapeWord segment ++
      '?' :: infoHashParam infoHash), ?_⟩
    rw [← Option.some.inj hurl, render_parts, render_parts]
    simp only [Option.elim_some, List.append_assoc, List.cons_append]
  next =>
    rw [scrapeRequestUrl, hderive] at hurl
    cases hurl

/-- Without a slash in the query only the query of the request is left to look at. -/
theorem wellFormedScrape_iff_of_plain (h : ∀ query, u.query = some query → '/' ∉ query) :
    WellFormedScrape u infoHash ↔
      (u.query.elim [] queryParams).Sublist (queryParams (u.requestQuery infoHash)) ∧
        OneInfoHash infoHash (u.requestQuery infoHash) := by
  have hurl := u.scrapeRequestUrl_of_plain infoHash h
  have hparse := parseUrl_render (u.parts_plain (by decide : '?' ∉ scrapeWord) (some (u.requestQuery infoHash)))
  constructor
  next =>
    rintro ⟨url, v, query, hreq, hv, -, -, -, hquery, hkept, hone⟩
    obtain rfl := Option.some.inj (hurl.symm.trans hreq)
    rw [String.toList_ofList, hparse] at hv
    obtain rfl := Option.some.inj hv
    obtain rfl := Option.some.inj hquery
    exact ⟨hkept, hone⟩
  next =>
    rintro ⟨hkept, hone⟩
    exact ⟨_, _, _, hurl, by rw [String.toList_ofList, hparse], rfl, rfl, rfl, rfl, hkept, hone⟩

theorem not_wellFormedScrape_of_slash {query : List Char} (hq : u.query = some query) (h : '/' ∈ query) :
    ¬ WellFormedScrape u infoHash := by
  rintro ⟨url, v, query', hreq, hv, -, -, hpath, -⟩
  obtain ⟨query', rfl⟩ := u.scrapeRequestUrl_of_slash infoHash hq h hreq
  rw [String.toList_ofList, parseUrl_render (u.parts_plain (by decide : '?' ∉ announceWord) _)] at hv
  obtain rfl := Option.some.inj hv
  have hlen := congrArg List.length hpath
  have hannounce : announceWord.length = 8 := by decide
  have hscrape : scrapeWord.length = 6 := by decide
  simp only [parts, List.length_append, List.length_cons, hannounce, hscrape] at hlen
  omega

end AnnounceUrl

theorem queryParams_infoHashParam (infoHash : InfoHash) :
    queryParams (infoHashParam infoHash) = [infoHashParam infoHash] := by
  have hsingle := queryParams_append LineFile.atLineStart_nil (infoHashParam_spec infoHash).1
  rw [List.nil_append] at hsingle
  rw [hsingle]
  simp [queryParams, infoHashParam]

theorem oneInfoHash_infoHashParam (infoHash : InfoHash) : OneInfoHash infoHash (infoHashParam infoHash) := by
  obtain ⟨-, hname, hvalue⟩ := infoHashParam_spec infoHash
  refine ⟨infoHashParam infoHash, ?_, hvalue⟩
  rw [queryParams_infoHashParam, List.filter_singleton, decide_eq_true hname, cond_true]

/-- What is appended lands in the last parameter, or after the last `&`. -/
theorem queryParams_append_request {front last : List Char} (hf : LineFile.AtLineStart '&' front)
    (hlast : '&' ∉ last) (infoHash : InfoHash) :
    queryParams (front ++ last ++ '?' :: infoHashParam infoHash) =
      queryParams front ++ [last ++ '?' :: infoHashParam infoHash] := by
  have hamp : '&' ∉ last ++ '?' :: infoHashParam infoHash := by
    simp only [List.mem_append, List.mem_cons, not_or]
    exact ⟨hlast, by decide, (infoHashParam_spec infoHash).1⟩
  rw [List.append_assoc, queryParams_append hf hamp, if_neg (by simp)]

/-- After an `&` the request adds a parameter, but none with the name of the hash. -/
theorem oneInfoHash_append_request {query : List Char} (h : LineFile.AtLineStart '&' query) (infoHash : InfoHash) :
    OneInfoHash infoHash (query ++ '?' :: infoHashParam infoHash) ↔ OneInfoHash infoHash query := by
  have hadded := queryParams_append_request h (List.not_mem_nil : '&' ∉ []) infoHash
  have hname : ¬ paramName ('?' :: infoHashParam infoHash) = infoHashName := by
    intro heq
    rw [paramName, List.takeWhile_cons_of_pos (by decide)] at heq
    have hhead : infoHashName.head? = some '?' := by
      rw [← heq]
      rfl
    exact absurd hhead (by decide)
  rw [List.append_nil, List.nil_append] at hadded
  rw [OneInfoHash, hadded, List.filter_append, List.filter_singleton, decide_eq_false hname, cond_false,
    List.append_nil, OneInfoHash]

/-- Without one the request changes the last parameter. -/
theorem not_sublist_append_request {front last : List Char} (hf : LineFile.AtLineStart '&' front)
    (hlast : '&' ∉ last) (hne : last ≠ []) (infoHash : InfoHash) :
    ¬ (queryParams (front ++ last)).Sublist (queryParams (front ++ last ++ '?' :: infoHashParam infoHash)) := by
  intro hkept
  rw [queryParams_append_request hf hlast, queryParams_append hf hlast, if_neg hne] at hkept
  have hsame := hkept.eq_of_length (by simp)
  have hgrown := List.cons.inj (List.append_cancel_left hsame)
  have hlen := congrArg List.length hgrown.1
  rw [List.length_append, List.length_cons] at hlen
  omega

/-- A request keeps the parameters of its query only if that ends in `&`, and then adds none of that name. -/
theorem queryParams_request_iff (infoHash : InfoHash) (query : List Char) :
    (queryParams query).Sublist (queryParams (query ++ '?' :: infoHashParam infoHash)) ∧
        OneInfoHash infoHash (query ++ '?' :: infoHashParam infoHash) ↔
      LineFile.AtLineStart '&' query ∧ OneInfoHash infoHash query := by
  by_cases hends : LineFile.AtLineStart '&' query
  next =>
    have hadded := queryParams_append_request hends (List.not_mem_nil : '&' ∉ []) infoHash
    rw [List.append_nil, List.nil_append] at hadded
    rw [oneInfoHash_append_request hends, hadded]
    exact ⟨fun h => ⟨hends, h.2⟩, fun h => ⟨List.sublist_append_left _ _, h.2⟩⟩
  next =>
    obtain ⟨front, last, rfl, hf, hlast⟩ := LineFile.exists_complete_split '&' query
    have hne : last ≠ [] := by
      rintro rfl
      exact hends (by rwa [List.append_nil])
    exact ⟨fun h => absurd h.1 (not_sublist_append_request hf hlast hne infoHash), fun h => absurd h.1 hends⟩

/-- The request is the one that should be made exactly if the announce URL has no query, or one that ends
in `&`, has no slash and carries the hash already. -/
theorem wellFormedScrape_iff (u : AnnounceUrl) (infoHash : InfoHash) :
    WellFormedScrape u infoHash ↔
      u.query = none ∨ ∃ query, u.query = some query ∧ '/' ∉ query ∧ LineFile.AtLineStart '&' query ∧
        OneInfoHash infoHash query := by
  cases hq : u.query with
  | none =>
    have hplain := u.wellFormedScrape_iff_of_plain infoHash fun query h => by rw [hq] at h; cases h
    rw [hplain, AnnounceUrl.requestQuery, hq]
    exact ⟨fun _ => Or.inl rfl, fun _ => ⟨List.nil_sublist _, oneInfoHash_infoHashParam infoHash⟩⟩
  | some query =>
    by_cases hslash : '/' ∈ query
    next =>
      have hnot := u.not_wellFormedScrape_of_slash infoHash hq hslash
      refine ⟨fun h => absurd h hnot, ?_⟩
      rintro (h | ⟨query', h, hnone, -⟩)
      · cases h
      · exact absurd hslash (Option.some.inj h ▸ hnone)
    next =>
      have hplain := u.wellFormedScrape_iff_of_plain infoHash fun query' h => by
        rw [hq] at h
        exact Option.some.inj h ▸ hslash
      rw [hplain, AnnounceUrl.requestQuery, hq, Option.elim_some, queryParams_request_iff]
      constructor
      · rintro ⟨hends, hone⟩
        exact Or.inr ⟨query, rfl, hslash, hends, hone⟩
      · rintro (h | ⟨query', h, -, hends, hone⟩)
        · cases h
        · exact Option.some.inj h ▸ ⟨hends, hone⟩

/-- `http://h/announce?passkey=x`. -/
def passkeyAnnounce : AnnounceUrl where
  scheme := ['h', 't', 't', 'p']
  host := ['h']
  dir := []
  before := []
  after := []
  query := some ['p', 'a', 's', 's', 'k', 'e', 'y', '=', 'x']
  scheme_colon := by decide
  host_slash := by decide
  host_query := by decide
  dir_slash := Or.inl rfl
  path_query := by decide
  segment_slash := by decide
  first := fun _ _ _ => Nat.zero_le _
  no_fragment := by decide

/-- The value of the passkey grows by the hash, and no `info_hash` is sent. -/
theorem passkeyAnnounce_not_wellFormed : ¬ WellFormedScrape passkeyAnnounce ⟨List.replicate 20 0, rfl⟩ := by
  have hslash : ∀ query, passkeyAnnounce.query = some query → '/' ∉ query := by
    rintro query ⟨⟩
    decide
  intro h
  have hrequest := (passkeyAnnounce.wellFormedScrape_iff_of_plain _ hslash).mp h
  exact absurd ((queryParams_request_iff _ _).mp hrequest).1 (by decide)

end KeepAt

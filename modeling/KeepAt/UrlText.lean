import KeepAt.CompleteLines
import KeepAt.TextSpan

namespace KeepAt

/-- A URL without a fragment. -/
structure UrlParts where
  scheme : List Char
  host : List Char
  path : List Char
  query : Option (List Char)
  deriving DecidableEq

namespace UrlParts

def render (u : UrlParts) : List Char :=
  u.scheme ++ ("://".toList ++ (u.host ++ (u.path ++ u.query.elim [] ('?' :: ·))))

/-- The parts keep to the characters that may stand in them. -/
structure Plain (u : UrlParts) : Prop where
  scheme : ':' ∉ u.scheme
  host_slash : '/' ∉ u.host
  host_query : '?' ∉ u.host
  path_slash : u.path.head? = some '/'
  path_query : '?' ∉ u.path

end UrlParts

def inHost (c : Char) : Bool := decide (c ≠ '/' ∧ c ≠ '?')

def parseUrl (s : List Char) : Option UrlParts :=
  let afterScheme := s.dropWhile (· ≠ ':')
  if "://".toList <+: afterScheme then
    let authority := afterScheme.drop 3
    let afterHost := authority.dropWhile inHost
    let query := match afterHost.dropWhile (· ≠ '?') with
      | [] => none
      | _ :: q => some q
    some ⟨s.takeWhile (· ≠ ':'), authority.takeWhile inHost, afterHost.takeWhile (· ≠ '?'), query⟩
  else none

theorem parseUrl_render {u : UrlParts} (h : u.Plain) : parseUrl u.render = some u := by
  obtain ⟨scheme, host, path, query⟩ := u
  obtain ⟨hscheme, hslash, hquery, hpath, hpathq⟩ := h
  dsimp only at hscheme hslash hquery hpath hpathq
  obtain ⟨path, rfl⟩ : ∃ tail, path = '/' :: tail := by
    cases path with
    | nil => cases hpath
    | cons c tail => exact ⟨tail, by rw [Option.some.inj hpath]⟩
  have hhost : ∀ d ∈ host, inHost d = true := fun d hd =>
    decide_eq_true ⟨fun he => hslash (he ▸ hd), fun he => hquery (he ▸ hd)⟩
  have hrender : UrlParts.render ⟨scheme, host, '/' :: path, query⟩ =
      scheme ++ ':' :: ('/' :: '/' :: (host ++ '/' :: (path ++ query.elim [] ('?' :: ·)))) := by
    simp [UrlParts.render]
  have hspan : ('/' :: path ++ query.elim [] ('?' :: ·)).takeWhile (· ≠ '?') = '/' :: path ∧
      ('/' :: path ++ query.elim [] ('?' :: ·)).dropWhile (· ≠ '?') = query.elim [] ('?' :: ·) := by
    cases query with
    | none =>
      rw [Option.elim_none, List.append_nil]
      exact ⟨takeWhile_ne_of_not_mem hpathq, dropWhile_ne_of_not_mem hpathq⟩
    | some q => exact ⟨takeWhile_ne_append_cons hpathq q, dropWhile_ne_append_cons hpathq q⟩
  have hslashes : "://".toList <+: ':' :: '/' :: '/' :: (host ++ '/' :: (path ++ query.elim [] ('?' :: ·))) :=
    List.prefix_append _ _
  rw [parseUrl, hrender]
  simp only [takeWhile_ne_append_cons hscheme, dropWhile_ne_append_cons hscheme, if_pos hslashes,
    List.drop_succ_cons, List.drop_zero, takeWhile_append_cons hhost (by decide : inHost '/' = false),
    dropWhile_append_cons hhost (by decide : inHost '/' = false)]
  rw [← List.cons_append, hspan.1, hspan.2]
  cases query <;> rfl

def queryParams (query : List Char) : List (List Char) := (query.splitOn '&').filter (· ≠ [])

def paramName (param : List Char) : List Char := param.takeWhile (· ≠ '=')

def paramValue (param : List Char) : List Char := (param.dropWhile (· ≠ '=')).drop 1

/-- After an `&`, or at the start, a text without one is a parameter of its own unless it is empty. -/
theorem queryParams_append {front last : List Char} (hf : LineFile.AtLineStart '&' front) (hlast : '&' ∉ last) :
    queryParams (front ++ last) = queryParams front ++ if last = [] then [] else [last] := by
  have hsingle : last.splitOn '&' = [last] := List.splitOn_eq_singleton hlast
  have hfilter : [last].filter (fun p => decide (p ≠ [])) = if last = [] then [] else [last] := by
    by_cases h : last = [] <;> simp [h]
  rcases hf.eq with rfl | ⟨front, rfl⟩
  · rw [List.nil_append, queryParams, hsingle, hfilter]
    rfl
  · have hends : queryParams (front ++ ['&']) = queryParams front := by
      rw [queryParams, List.splitOn_append_cons_self, List.filter_append]
      simp [queryParams]
    rw [hends, queryParams, List.append_assoc, List.singleton_append, List.splitOn_append_cons_self,
      List.filter_append, hsingle, hfilter]
    rfl

end KeepAt

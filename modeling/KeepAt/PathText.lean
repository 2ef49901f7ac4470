import KeepAt.State

namespace KeepAt

def pathText (p : PathBuf) : String :=
  match p with
  | "/" :: rest => String.ofList ('/' :: List.intercalate ['/'] (rest.map String.toList))
  | components => String.ofList (List.intercalate ['/'] (components.map String.toList))

/-- Empty and `.` components are dropped, but for a leading `.`. -/
def keptComponents (chunks : List (List Char)) : PathBuf :=
  (chunks.filter (fun c => c ≠ [] ∧ c ≠ ['.'])).map String.ofList

def pathOf (s : String) : PathBuf :=
  match s.toList with
  | '/' :: rest => "/" :: keptComponents (rest.splitOn '/')
  | chars =>
    match chars.splitOn '/' with
    | ['.'] :: rest => "." :: keptComponents rest
    | chunks => keptComponents chunks

/-- A component that is a name: not empty, no `.`, and without a separator. -/
def PlainComponent (c : String) : Prop := c.toList ≠ [] ∧ c.toList ≠ ['.'] ∧ '/' ∉ c.toList

/-- The components that a path has: names, after a root for an absolute one or after a leading `.`. -/
def NormalPath (p : PathBuf) : Prop :=
  (∀ c ∈ p, PlainComponent c) ∨ ∃ head rest, p = head :: rest ∧ (head = "/" ∨ head = ".") ∧
    ∀ c ∈ rest, PlainComponent c

theorem keptComponents_plain {p : PathBuf} (h : ∀ c ∈ p, PlainComponent c) :
    keptComponents (p.map String.toList) = p := by
  have hall : (p.map String.toList).filter (fun c => c ≠ [] ∧ c ≠ ['.']) = p.map String.toList := by
    refine List.filter_eq_self.mpr fun c hc => decide_eq_true ?_
    obtain ⟨d, hd, rfl⟩ := List.mem_map.mp hc
    exact ⟨(h d hd).1, (h d hd).2.1⟩
  rw [keptComponents, hall, List.map_map]
  simp

theorem splitOn_intercalate_components {p : PathBuf} (h : ∀ c ∈ p, '/' ∉ c.toList) (hne : p ≠ []) :
    (List.intercalate ['/'] (p.map String.toList)).splitOn '/' = p.map String.toList := by
  refine List.splitOn_intercalate '/' ?_ (by simpa using hne)
  intro c hc
  obtain ⟨d, hd, rfl⟩ := List.mem_map.mp hc
  exact h d hd

theorem splitOn_intercalate_plain {p : PathBuf} (h : ∀ c ∈ p, PlainComponent c) (hne : p ≠ []) :
    (List.intercalate ['/'] (p.map String.toList)).splitOn '/' = p.map String.toList :=
  splitOn_intercalate_components (fun c hc => (h c hc).2.2) hne

theorem keptComponents_splitOn {p : PathBuf} (h : ∀ c ∈ p, PlainComponent c) :
    keptComponents ((List.intercalate ['/'] (p.map String.toList)).splitOn '/') = p := by
  by_cases hne : p = []
  · subst hne
    rfl
  · rw [splitOn_intercalate_plain h hne, keptComponents_plain h]

theorem pathOf_plain {p : PathBuf} (h : ∀ c ∈ p, PlainComponent c) :
    pathOf (String.ofList (List.intercalate ['/'] (p.map String.toList))) = p := by
  cases p with
  | nil => rfl
  | cons c rest =>
    obtain ⟨hne, hdot, hsep⟩ := h c List.mem_cons_self
    obtain ⟨x, xs, hx⟩ := List.exists_cons_of_ne_nil hne
    have hhead : x ≠ '/' := by
      rintro rfl
      exact hsep (by rw [hx]; exact List.mem_cons_self)
    have htext : ∃ ys, List.intercalate ['/'] ((c :: rest).map String.toList) = x :: ys := by
      cases rest with
      | nil => exact ⟨xs, by simp [hx]⟩
      | cons d rest =>
        exact ⟨xs ++ '/' :: List.intercalate ['/'] ((d :: rest).map String.toList),
          by simp [List.intercalate, hx]⟩
    obtain ⟨ys, hys⟩ := htext
    have hsplit := splitOn_intercalate_plain h (List.cons_ne_nil c rest)
    have hkept := keptComponents_plain h
    rw [hys] at hsplit ⊢
    simp only [pathOf, String.toList_ofList]
    split
    next heq => exact absurd (List.cons.inj heq).1 hhead
    next =>
      rw [hsplit]
      split
      next heq => exact absurd (List.cons.inj heq).1 hdot
      next => exact hkept

theorem pathOf_dot {rest : PathBuf} (h : ∀ c ∈ rest, PlainComponent c) :
    pathOf (String.ofList (List.intercalate ['/'] (("." :: rest).map String.toList))) = "." :: rest := by
  have hsep : ∀ c ∈ "." :: rest, '/' ∉ c.toList :=
    List.forall_mem_cons.mpr ⟨by decide, fun c hc => (h c hc).2.2⟩
  have hsplit := splitOn_intercalate_components hsep (List.cons_ne_nil "." rest)
  have htext : ∃ ys, List.intercalate ['/'] (("." :: rest).map String.toList) = '.' :: ys := by
    cases rest with
    | nil => exact ⟨[], rfl⟩
    | cons d rest => exact ⟨'/' :: List.intercalate ['/'] ((d :: rest).map String.toList), by simp [List.intercalate]⟩
  obtain ⟨ys, hys⟩ := htext
  rw [hys] at hsplit ⊢
  simp only [pathOf, String.toList_ofList]
  split
  next heq => exact absurd (List.cons.inj heq).1 (by decide)
  next =>
    rw [hsplit, List.map_cons]
    exact congrArg _ (keptComponents_plain h)

theorem pathOf_pathText {p : PathBuf} (h : NormalPath p) : pathOf (pathText p) = p := by
  rcases h with h | ⟨head, rest, rfl, rfl | rfl, h⟩
  · unfold pathText
    split
    next rest =>
      exact absurd (show '/' ∈ "/".toList by decide) (h "/" List.mem_cons_self).2.2
    next => exact pathOf_plain h
  · simp only [pathText, pathOf, String.toList_ofList, keptComponents_splitOn h]
  · exact pathOf_dot h

end KeepAt

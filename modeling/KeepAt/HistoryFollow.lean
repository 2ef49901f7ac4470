import KeepAt.HistoryView
import KeepAt.LogFollow
import KeepAt.Runs

namespace KeepAt

/-- Where a follower of the history is. -/
structure HistoryFollower where
  pos : Nat
  lastId : Option (Nat × Nat)
  shown : List Event
  notices : Nat

/-- A look at the file: its device and inode, and its length. -/
def HistoryFollower.look (s : HistoryFollower) (id : Nat × Nat) (len : Nat) : HistoryFollower :=
  let s := if decide (len < s.pos) || s.lastId.any (· ≠ id) then { s with pos := 0, notices := s.notices + 1 } else s
  { s with lastId := some id }

/-- A read of the file from the offset on, by what it holds then: only complete lines are taken. -/
def HistoryFollower.read (json : EventJson) (s : HistoryFollower) (data : Bytes) : HistoryFollower :=
  let complete := LineFile.completePart newline (data.drop s.pos)
  { s with
    pos := s.pos + complete.length
    shown := s.shown ++ (LineFile.read newline json.fromSlice complete).1 }

/-- What the writer's system calls do to the live file: appending, in any pieces, renaming it away, and
creating the next. -/
inductive LiveFileStep : Option Bytes → Option Bytes → Prop
  | append (c bs : Bytes) : LiveFileStep (some c) (some (c ++ bs))
  | rename (c : Bytes) : LiveFileStep (some c) none
  | create : LiveFileStep none (some [])

namespace HistoryWriter

theorem openAppend_runs (w : HistoryWriter) (ok : Bool) :
    Relation.ReflTransGen LiveFileStep w.live (w.openAppend ok).live := by
  unfold openAppend
  split
  next =>
    cases hlive : w.live with
    | none => exact .single .create
    | some c => exact .refl
  next => exact .refl

theorem append_runs (live : Option Bytes) (bs : Bytes) :
    Relation.ReflTransGen LiveFileStep live (some (live.getD [] ++ bs)) := by
  cases live with
  | none => exact (Relation.ReflTransGen.single .create).tail (.append [] bs)
  | some c => exact .single (.append c bs)

theorem writeAttempt_runs (w : HistoryWriter) (line : Bytes) (a : WriteAttempt) :
    Relation.ReflTransGen LiveFileStep w.live (w.writeAttempt line a).1.live := by
  have hopen : Relation.ReflTransGen LiveFileStep w.live (if w.isOpen then w else w.openAppend a.openOk).live := by
    split
    next => exact .refl
    next => exact openAppend_runs w a.openOk
  unfold writeAttempt
  dsimp only
  generalize (if w.isOpen then w else w.openAppend a.openOk) = v at hopen ⊢
  split
  next =>
    split
    next => exact hopen.trans (append_runs v.live line)
    next k _ => exact hopen.trans (append_runs v.live (line.take k))
  next => exact hopen

theorem writeLine_runs (w : HistoryWriter) (line : Bytes) (env : HistoryEnv) :
    Relation.ReflTransGen LiveFileStep w.live (w.writeLine line env).1.live := by
  have hfirst := writeAttempt_runs w line env.first
  unfold writeLine
  generalize w.writeAttempt line env.first = out at hfirst
  obtain ⟨v, result⟩ := out
  match result with
  | some true => exact hfirst
  | none => exact hfirst
  | some false => exact hfirst.trans (writeAttempt_runs v line env.second)

theorem beforeWrite_runs (w : HistoryWriter) (line : Bytes) (env : HistoryEnv) :
    Relation.ReflTransGen LiveFileStep w.live (w.beforeWrite line env).live := by
  unfold beforeWrite
  split
  next hcross =>
    obtain ⟨-, hcross⟩ := Bool.and_eq_true_iff.mp hcross
    cases hlive : w.live with
    | none => simp [crosses, hlive] at hcross
    | some c =>
      rw [← hlive]
      unfold rotate
      refine Relation.ReflTransGen.trans ?_ (openAppend_runs _ env.reopenOk)
      split
      next =>
        rw [hlive]
        exact .single (.rename c)
      next => exact .refl
  next => exact .refl

/-- A record is made of these calls only. -/
theorem record_runs (json : EventJson) (w : HistoryWriter) (ev : Event) (env : HistoryEnv) :
    Relation.ReflTransGen LiveFileStep w.live (w.record json ev env).1.live := by
  unfold record
  split
  next => exact .refl
  next text _ => exact (beforeWrite_runs w _ env).trans (writeLine_runs _ _ env)

end HistoryWriter

/-- Where the loop is: between two turns, at a file that has grown since it was read, or at an open one. -/
inductive FollowPhase where
  | idle
  | grown
  | opened (generation : Nat)
  | ended

/-- A follower next to the writer. `renamed` has the generations that were renamed away, oldest first, with their
inodes, and `live` the one under the path. `looked` is the generation that was last looked at, and `seen` lists
what was read of each, from what the command started with on. -/
structure Following where
  renamed : List ((Nat × Nat) × Bytes)
  live : Option Bytes
  id : Nat × Nat
  phase : FollowPhase
  follower : HistoryFollower
  looked : Nat
  seen : List (Nat × Bytes)

def Following.generations (w : Following) : List ((Nat × Nat) × Bytes) := w.renamed ++ (w.live.map (w.id, ·)).toList

/-- A look, and what it leads to. A generation that was not looked at before has been read to no length. -/
def Following.look (w : Following) (len : Nat) : Following :=
  let follower := w.follower.look w.id len
  { w with
    phase := if len > follower.pos then .grown else .idle
    follower
    looked := w.renamed.length
    seen := if w.renamed.length = w.looked then w.seen else w.seen ++ [(w.renamed.length, [])] }

def Following.read (json : EventJson) (w : Following) (generation : Nat) (data : Bytes) : Following :=
  { w with
    phase := .idle
    follower := w.follower.read json data
    seen := w.seen.dropLast ++ [(generation, data)] }

/-- The writer's calls and those of the follower in any order. A new file never has the inode of the one before it,
which is still there under its other name. -/
inductive FollowingStep (json : EventJson) (w : Following) : Following → Prop
  | append (c bs : Bytes) (hlive : w.live = some c) : FollowingStep json w { w with live := some (c ++ bs) }
  | rename (c : Bytes) (hlive : w.live = some c) :
      FollowingStep json w { w with renamed := w.renamed ++ [(w.id, c)], live := none }
  | create (id : Nat × Nat) (hlive : w.live = none) (another : ∀ g ∈ w.renamed.getLast?, id ≠ g.1) :
      FollowingStep json w { w with live := some [], id }
  | lookMissing (idle : w.phase = .idle) (hlive : w.live = none) : FollowingStep json w w
  | look (c : Bytes) (idle : w.phase = .idle) (hlive : w.live = some c) : FollowingStep json w (w.look c.length)
  | opens (grown : w.phase = .grown) (hlive : w.live.isSome) :
      FollowingStep json w { w with phase := .opened w.renamed.length }
  /-- The command ends where the file is gone that it has just looked at. -/
  | opensMissing (grown : w.phase = .grown) (hlive : w.live = none) : FollowingStep json w { w with phase := .ended }
  | read (generation : Nat) (id : Nat × Nat) (data : Bytes) (opened : w.phase = .opened generation)
      (held : w.generations[generation]? = some (id, data)) : FollowingStep json w (w.read json generation data)

/-- What a turn of the loop takes for granted: another generation than at the last look has another inode, which the
last look noted, and the file that is opened is the one that was looked at. -/
structure Following.Undisturbed (w w' : Following) : Prop where
  noticed : w'.looked ≠ w.looked → ∃ old, w.follower.lastId = some old ∧ old ≠ w.id
  opened : ∀ generation, w'.phase = .opened generation → generation = w'.looked

/-- What the writer's calls do to the live file is done next to a follower. -/
theorem LiveFileStep.following (json : EventJson) {w : Following} {live : Option Bytes}
    (h : LiveFileStep w.live live) : ∃ w', FollowingStep json w w' ∧ w'.live = live := by
  generalize hold : w.live = old at h
  cases h with
  | append c bs => exact ⟨_, .append c bs hold, rfl⟩
  | rename c => exact ⟨_, .rename c hold, rfl⟩
  | create =>
    cases hlast : w.renamed.getLast? with
    | none => exact ⟨_, .create w.id hold (by simp [hlast]), rfl⟩
    | some g => exact ⟨_, .create (g.1.1, g.1.2 + 1) hold (by simp [hlast, Prod.ext_iff]), rfl⟩

/-- So is all that a record does. -/
theorem HistoryWriter.record_following (json : EventJson) (w : HistoryWriter) (ev : Event) (env : HistoryEnv)
    {x : Following} (hlive : x.live = w.live) :
    ∃ x', Relation.ReflTransGen (FollowingStep json) x x' ∧ x'.live = (w.record json ev env).1.live := by
  have hrun := record_runs json w ev env
  rw [← hlive] at hrun
  generalize (w.record json ev env).1.live = live at hrun ⊢
  induction hrun with
  | refl => exact ⟨x, .refl, rfl⟩
  | tail _ step ih =>
    obtain ⟨y, hy, hlive'⟩ := ih
    obtain ⟨z, hz, hlive''⟩ := LiveFileStep.following json (hlive' ▸ step)
    exact ⟨z, hy.tail hz, hlive''⟩

/-- The events of the complete lines. -/
def eventsOf (json : EventJson) (data : Bytes) : List Event :=
  (LineFile.read newline json.fromSlice (LineFile.completePart newline data)).1

def Following.start (shown : List Event) (id : Nat × Nat) (initial : Bytes) : Following :=
  ⟨[], some initial, id, .idle, ⟨LineFile.completeLen newline initial, none, shown, 0⟩, 0, [(0, initial)]⟩

/-- The events of what was read, generation by generation. -/
def Following.seenEvents (json : EventJson) (w : Following) : List Event := w.seen.flatMap fun g => eventsOf json g.2

variable {json : EventJson}

theorem eventsOf_append (content appended : Bytes) :
    eventsOf json (content ++ appended) = eventsOf json content ++
      (LineFile.read newline json.fromSlice (LineFile.completePart newline (fresh content appended))).1 := by
  have hstart : LineFile.AtLineStart newline (LineFile.completePart newline content) :=
    LineFile.atLineStart_completePart content
  rw [eventsOf, fresh_eq, LineFile.completePart_append hstart, LineFile.read_append hstart]
  rfl

variable (json) in
/-- A read takes the events that were added since the last one. -/
theorem read_grown {s : HistoryFollower} {last data : Bytes} (hpos : s.pos = LineFile.completeLen newline last)
    (hgrown : last <+: data) :
    (s.read json data).pos = LineFile.completeLen newline data ∧
      ∃ more, eventsOf json data = eventsOf json last ++ more ∧ (s.read json data).shown = s.shown ++ more := by
  obtain ⟨added, rfl⟩ := hgrown
  have hdrop : (last ++ added).drop s.pos = fresh last added := by rw [hpos, fresh]
  refine ⟨?_, _, eventsOf_append last added, ?_⟩
  · rw [completeLen_append_fresh, HistoryFollower.read, hdrop, hpos]
  · rw [HistoryFollower.read, hdrop]

theorem look_same {s : HistoryFollower} {id : Nat × Nat} {len : Nat} (hlen : s.pos ≤ len)
    (hid : ∀ i, s.lastId = some i → i = id) : s.look id len = { s with lastId := some id } := by
  have hstays : (decide (len < s.pos) || s.lastId.any (· ≠ id)) = false := by
    rw [decide_eq_false (Nat.not_lt.mpr hlen), Bool.false_or]
    cases hlast : s.lastId with
    | none => rfl
    | some i => simp [hid i hlast]
  simp only [HistoryFollower.look, hstays, Bool.false_eq_true, if_false]

theorem look_other {s : HistoryFollower} {id old : Nat × Nat} {len : Nat} (hold : s.lastId = some old)
    (hne : old ≠ id) : s.look id len = { s with pos := 0, lastId := some id, notices := s.notices + 1 } := by
  have hrestarts : (decide (len < s.pos) || s.lastId.any (· ≠ id)) = true := by simp [hold, hne]
  simp only [HistoryFollower.look, hrestarts, if_true]

/-- The follower stands after the last complete line of what it read last, of the generation that it looked at, and
has shown what it read. -/
structure Following.Keeps (json : EventJson) (tail first : List Event) (w : Following) : Prop where
  shown : w.follower.shown = tail ++ (w.seenEvents json).drop first.length
  first : first <+: w.seenEvents json
  last : ∃ front c, w.seen = front ++ [(w.looked, c)] ∧ w.follower.pos = LineFile.completeLen newline c
  order : (w.seen.map Prod.fst).Pairwise (· < ·)
  held : ∀ g ∈ w.seen, ∃ d, w.generations[g.1]? = some d ∧ g.2 <+: d.2
  noted : ∀ id, w.follower.lastId = some id → ∀ d, w.generations[w.looked]? = some d → d.1 = id
  opened : ∀ generation, w.phase = .opened generation → generation = w.looked

namespace Following

variable {w w' : Following} {tail first : List Event}

theorem look_closed (w : Following) (len generation : Nat) : (w.look len).phase ≠ .opened generation := by
  simp only [look]
  split <;> exact nofun

theorem look_idle {len : Nat} (h : len ≤ (w.follower.look w.id len).pos) : (w.look len).phase = .idle :=
  if_neg h.not_gt

theorem look_grown {len : Nat} (h : (w.follower.look w.id len).pos < len) : (w.look len).phase = .grown := if_pos h

theorem generations_of_live {c : Bytes} (hlive : w.live = some c) : w.generations = w.renamed ++ [(w.id, c)] := by
  simp [generations, hlive]

/-- Generations stay what they are, or grow. -/
theorem generations_grow (step : FollowingStep json w w') {g : Nat} {d : (Nat × Nat) × Bytes}
    (h : w.generations[g]? = some d) : ∃ d', w'.generations[g]? = some d' ∧ d.1 = d'.1 ∧ d.2 <+: d'.2 := by
  cases step with
  | append c bs hlive =>
    rw [generations_of_live hlive] at h
    rw [generations_of_live rfl]
    by_cases hg : g < w.renamed.length
    · rw [List.getElem?_append_left hg] at h ⊢
      exact ⟨d, h, rfl, List.prefix_refl _⟩
    · obtain rfl : g = w.renamed.length := by
        have hlt := (List.getElem?_eq_some_iff.mp h).1
        rw [List.length_append, List.length_singleton] at hlt
        omega
      obtain rfl := Option.some.inj (List.getElem?_concat_length.symm.trans h)
      exact ⟨_, List.getElem?_concat_length, rfl, List.prefix_append _ _⟩
  | rename c hlive =>
    refine ⟨d, ?_, rfl, List.prefix_refl _⟩
    simpa [generations, hlive] using h
  | create id hlive another =>
    refine ⟨d, ?_, rfl, List.prefix_refl _⟩
    simp only [generations, hlive, Option.map_none, Option.toList_none, List.append_nil] at h ⊢
    rw [List.getElem?_append_left (List.getElem?_eq_some_iff.mp h).1]
    exact h
  | _ => exact ⟨d, h, rfl, List.prefix_refl _⟩

theorem Keeps.generation {d : (Nat × Nat) × Bytes} {front : List (Nat × Bytes)} {c : Bytes}
    (h : w.Keeps json tail first) (hseen : w.seen = front ++ [(w.looked, c)])
    (hd : w.generations[w.looked]? = some d) : c <+: d.2 := by
  obtain ⟨d', hd', hc⟩ := h.held (w.looked, c) (by simp [hseen])
  obtain rfl := Option.some.inj (hd.symm.trans hd')
  exact hc

/-- What the writer does leaves the follower where it is. -/
theorem Keeps.write (h : w.Keeps json tail first) (step : FollowingStep json w w')
    (follower : w'.follower = w.follower) (phase : w'.phase = w.phase) (looked : w'.looked = w.looked)
    (seen : w'.seen = w.seen) :
    w'.Keeps json tail first := by
  have hevents : w'.seenEvents json = w.seenEvents json := by rw [seenEvents, seenEvents, seen]
  refine ⟨?_, hevents ▸ h.first, ?_, seen ▸ h.order, fun g hg => ?_, fun id hid d hd => ?_, ?_⟩
  · rw [follower, hevents]
    exact h.shown
  · rw [follower, looked, seen]
    exact h.last
  · obtain ⟨d, hd, hprefix⟩ := h.held g (seen ▸ hg)
    obtain ⟨d', hd', -, hgrown⟩ := generations_grow step hd
    exact ⟨d', hd', hprefix.trans hgrown⟩
  · obtain ⟨front, c, hseen, -⟩ := h.last
    obtain ⟨d₀, hd₀, -⟩ := h.held (w.looked, c) (by simp [hseen])
    obtain ⟨d', hd', hsame, -⟩ := generations_grow step hd₀
    rw [looked] at hd
    obtain rfl := Option.some.inj (hd.symm.trans hd')
    exact hsame.symm.trans (h.noted id (follower ▸ hid) d₀ hd₀)
  · rw [phase, looked]
    exact h.opened

/-- A look at the generation that was looked at before changes nothing but the note of its inode. -/
theorem Keeps.look_same {c : Bytes} (h : w.Keeps json tail first) (hlive : w.live = some c)
    (hlooked : w.looked = w.renamed.length) : (w.look c.length).Keeps json tail first := by
  obtain ⟨front, last, hseen, hpos⟩ := h.last
  have hd : w.generations[w.looked]? = some (w.id, c) := by
    rw [generations_of_live hlive, hlooked, List.getElem?_concat_length]
  have hgrown : last <+: c := h.generation hseen hd
  have hle : w.follower.pos ≤ c.length := by
    rw [hpos]
    exact (LineFile.completeLen_le last).trans hgrown.length_le
  have hfollower : w.follower.look w.id c.length = { w.follower with lastId := some w.id } :=
    KeepAt.look_same hle fun id hid => (h.noted id hid _ hd).symm
  have hseen' : (w.look c.length).seen = w.seen := if_pos hlooked.symm
  refine ⟨?_, ?_, ?_, hseen' ▸ h.order, fun g hg => h.held g (hseen' ▸ hg), fun id hid d hd' => ?_, fun g hg => ?_⟩
  · simp only [look, hfollower]
    rw [seenEvents, if_pos hlooked.symm]
    exact h.shown
  · rw [seenEvents, hseen']
    exact h.first
  · exact ⟨front, last, hseen'.trans (hseen.trans (by rw [hlooked]; rfl)), by simpa [look, hfollower] using hpos⟩
  · simp only [look, hfollower] at hid hd'
    rw [← hlooked] at hd'
    obtain rfl := Option.some.inj (hd.symm.trans hd')
    exact Option.some.inj hid
  · simp only [look] at hg
    split at hg <;> cases hg

/-- A look that notices another generation starts at its head. -/
theorem Keeps.look_other {c : Bytes} {old : Nat × Nat} (h : w.Keeps json tail first) (hlive : w.live = some c)
    (hlooked : w.looked ≠ w.renamed.length) (hold : w.follower.lastId = some old) (hne : old ≠ w.id) :
    (w.look c.length).Keeps json tail first := by
  obtain ⟨front, last, hseen, -⟩ := h.last
  have hd : w.generations[w.renamed.length]? = some (w.id, c) := by
    rw [generations_of_live hlive, List.getElem?_concat_length]
  have hfollower : w.follower.look w.id c.length = _ := KeepAt.look_other hold hne
  have hseen' : (w.look c.length).seen = w.seen ++ [(w.renamed.length, [])] := if_neg (Ne.symm hlooked)
  have hevents : (w.look c.length).seenEvents json = w.seenEvents json := by
    rw [seenEvents, hseen', List.flatMap_append]
    exact List.append_nil _
  have horder := h.order
  rw [hseen, List.map_append, List.pairwise_append] at horder
  have hbefore : ∀ g ∈ w.seen, g.1 < w.renamed.length := by
    intro g hg
    have hle : g.1 ≤ w.looked := by
      rw [hseen] at hg
      rcases List.mem_append.mp hg with hg | hg
      · exact (horder.2.2 _ (List.mem_map_of_mem hg) _ (by simp)).le
      · rw [List.mem_singleton.mp hg]
    obtain ⟨d, hlooked', -⟩ := h.held (w.looked, last) (by simp [hseen])
    have hlt := (List.getElem?_eq_some_iff.mp hlooked').1
    rw [generations_of_live hlive, List.length_append, List.length_singleton] at hlt
    omega
  refine ⟨?_, hevents ▸ h.first, ⟨w.seen, [], hseen', ?_⟩, ?_, fun g hg => ?_, fun id hid d hd' => ?_, fun g hg => ?_⟩
  · rw [hevents]
    simp only [look, hfollower]
    exact h.shown
  · simp only [look, hfollower]
    rfl
  · rw [hseen', List.map_append]
    refine List.pairwise_append.mpr ⟨h.order, List.pairwise_singleton _ _, fun g hg g' hg' => ?_⟩
    obtain rfl := List.mem_singleton.mp hg'
    obtain ⟨p, hp, rfl⟩ := List.mem_map.mp hg
    exact hbefore p hp
  · rcases List.mem_append.mp (hseen' ▸ hg) with hg | hg
    · exact h.held g hg
    · obtain rfl := List.mem_singleton.mp hg
      exact ⟨_, hd, List.nil_prefix⟩
  · simp only [look, hfollower] at hid hd'
    obtain rfl := Option.some.inj (hd.symm.trans hd')
    exact Option.some.inj hid
  · simp only [look] at hg
    split at hg <;> cases hg

theorem Keeps.read {g : Nat} {id : Nat × Nat} {data : Bytes} (h : w.Keeps json tail first)
    (opened : w.phase = .opened g) (hheld : w.generations[g]? = some (id, data)) :
    (w.read json g data).Keeps json tail first := by
  obtain rfl := h.opened g opened
  obtain ⟨front, last, hseen, hpos⟩ := h.last
  obtain ⟨hpos', more, hevents, hshown⟩ := read_grown json hpos (h.generation hseen hheld)
  have hseen' : (w.read json w.looked data).seen = front ++ [(w.looked, data)] := by
    simp only [Following.read, hseen, List.dropLast_concat]
  have hflat : (w.read json w.looked data).seenEvents json = w.seenEvents json ++ more := by
    rw [seenEvents, seenEvents, hseen', hseen, List.flatMap_append, List.flatMap_append, List.flatMap_singleton,
      List.flatMap_singleton, hevents, List.append_assoc]
  refine ⟨?_, ?_, ⟨front, data, hseen', hpos'⟩, ?_, fun g' hg' => ?_, h.noted, nofun⟩
  · rw [hflat, List.drop_append_of_le_length h.first.length_le, ← List.append_assoc, ← h.shown]
    exact hshown
  · rw [hflat]
    exact h.first.trans (List.prefix_append _ _)
  · have horder := h.order
    rw [hseen] at horder
    rw [hseen']
    simpa using horder
  · rcases List.mem_append.mp (hseen' ▸ hg') with hfront | hlast
    · exact h.held g' (by rw [hseen]; exact List.mem_append_left _ hfront)
    · obtain rfl := List.mem_singleton.mp hlast
      exact ⟨_, hheld, List.prefix_refl _⟩

theorem Keeps.step (h : w.Keeps json tail first) (step : FollowingStep json w w') (sure : w.Undisturbed w') :
    w'.Keeps json tail first := by
  cases step with
  | append c bs hlive => exact h.write (.append c bs hlive) rfl rfl rfl rfl
  | rename c hlive => exact h.write (.rename c hlive) rfl rfl rfl rfl
  | create id hlive another => exact h.write (.create id hlive another) rfl rfl rfl rfl
  | lookMissing idle hlive => exact h
  | look c idle hlive =>
    by_cases hlooked : w.looked = w.renamed.length
    · exact h.look_same hlive hlooked
    · obtain ⟨old, hold, hne⟩ := sure.noticed (Ne.symm hlooked)
      exact h.look_other hlive hlooked hold hne
  | opens grown hlive => exact { h with opened := sure.opened }
  | opensMissing grown hlive => exact { h with opened := nofun }
  | read generation id data opened held => exact h.read opened held

theorem Undisturbed.of_same (looked : w'.looked = w.looked)
    (closed : ∀ generation, w'.phase ≠ .opened generation) : w.Undisturbed w' :=
  ⟨fun hne => absurd looked hne, fun generation hopened => absurd hopened (closed generation)⟩

theorem start_keeps (shown : List Event) (id : Nat × Nat) (initial : Bytes) :
    (Following.start shown id initial).Keeps json shown (eventsOf json initial) := by
  refine ⟨?_, ?_, ⟨[], initial, rfl, rfl⟩, List.pairwise_singleton _ _, fun g hg => ?_, nofun, nofun⟩
  · simp [Following.start, seenEvents]
  · simp [Following.start, seenEvents]
  · obtain rfl := List.mem_singleton.mp hg
    exact ⟨(id, initial), rfl, List.prefix_refl _⟩

end Following

/-- However the looks, the opens and the reads fall between the writes, torn ones and rotations included, as long as
each look that finds another generation than the last one finds another inode than that noted, and the file opened is
the one looked at: `history` shows the events of what it has read of each generation, each once and in order, but for
those that the tail at the start left out. -/
theorem follow_shows_each_event_once {args : HistoryArgs} {w₀ : HistoryWriter} {initial : Bytes}
    {shown : HistoryShown} {from_ : Nat} {id : Nat × Nat} {w : Following} (hlive : w₀.live = some initial)
    (hstart : cmdHistory json args w₀ = some shown) (hfollow : shown.followFrom = some from_)
    (run : Relation.ReflTransGen (fun x y => FollowingStep json x y ∧ x.Undisturbed y)
      (.start shown.events id initial) w) :
    from_ = (Following.start shown.events id initial).follower.pos ∧
      w.follower.shown = (w.seenEvents json).drop ((eventsOf json initial).length - args.lines) ∧
      (w.seen.map Prod.fst).Pairwise (· < ·) ∧
      ∀ g ∈ w.seen, ∃ d, w.generations[g.1]? = some d ∧ g.2 <+: d.2 := by
  have hkeeps : w.Keeps json shown.events (eventsOf json initial) :=
    run_preserves (fun step h => h.step step.1 step.2) run (Following.start_keeps shown.events id initial)
  simp only [cmdHistory, hlive] at hstart
  split at hstart
  next =>
    obtain rfl := Option.some.inj hstart
    simp at hfollow
  next =>
    obtain rfl := Option.some.inj hstart
    split at hfollow
    next => simp at hfollow
    next =>
      obtain rfl := Option.some.inj hfollow
      refine ⟨rfl, ?_, hkeeps.order, hkeeps.held⟩
      -- the tail is what the drop of the first events leaves of the initial ones
      obtain ⟨rest, hrest⟩ := hkeeps.first
      have hshown := hkeeps.shown
      rw [← hrest, List.drop_left] at hshown
      rw [hshown, ← hrest, List.drop_append_of_le_length (Nat.sub_le _ _)]
      refine congrArg (· ++ rest) ?_
      dsimp only [eventsOf, LineFile.completePart]
      rw [List.reverse_take, List.reverse_reverse, List.length_reverse]

def oneRecord : HistoryWriter := ⟨1, true, some (Reference.removalText 97 ++ [newline]), none⟩

theorem cmdHistory_follow (json : EventJson) (args : HistoryArgs) {w : HistoryWriter} {data : Bytes}
    (hlive : w.live = some data) (hall : args.all = false) (hfollow : args.noFollow = false) :
    ∃ shown, cmdHistory json args w = some shown ∧
      shown.followFrom = some (LineFile.completeLen newline data) := by
  simp [cmdHistory, hlive, hall, hfollow]

/-- A look, a rotation, and a turn of the loop on the new file. -/
theorem Following.follows_rotation (json : EventJson) (shown : List Event) {line next : Bytes}
    (hline : LineFile.completeLen newline line = line.length) (hnext : 0 < next.length) :
    ∃ w, Relation.ReflTransGen (fun x y => FollowingStep json x y ∧ x.Undisturbed y)
        (.start shown (1, 7) line) w ∧ w.seen = [(0, line), (1, next)] := by
  let w₀ := Following.start shown (1, 7) line
  let w₁ := w₀.look line.length
  let w₂ : Following := { w₁ with renamed := [((1, 7), line)], live := none }
  let w₃ : Following := { w₂ with live := some [], id := (1, 8) }
  let w₄ : Following := { w₃ with live := some next }
  let w₅ := w₄.look next.length
  let w₆ : Following := { w₅ with phase := .opened 1 }
  let w₇ := w₆.read json 1 next
  let Step := fun x y => FollowingStep json x y ∧ x.Undisturbed y
  have same : w₀.follower.look (1, 7) line.length = { w₀.follower with lastId := some (1, 7) } :=
    KeepAt.look_same hline.le nofun
  have hid : w₁.follower.lastId = some (1, 7) := congrArg HistoryFollower.lastId same
  have idle : w₁.phase = .idle := look_idle (hline.ge.trans (congrArg HistoryFollower.pos same).ge)
  have another : ((1, 7) : Nat × Nat) ≠ (1, 8) := by decide
  have head : (w₄.follower.look (1, 8) next.length).pos = 0 :=
    congrArg HistoryFollower.pos (KeepAt.look_other hid another)
  have grown : w₅.phase = .grown := look_grown (head.trans_lt hnext)
  have closed : ∀ generation, w₁.phase ≠ .opened generation := w₀.look_closed line.length
  have looks : Step w₀ w₁ := ⟨.look line rfl rfl, .of_same rfl closed⟩
  have renames : Step w₁ w₂ := ⟨.rename line rfl, .of_same rfl closed⟩
  have creates : Step w₂ w₃ := ⟨.create (1, 8) rfl (by simp [w₂]), .of_same rfl closed⟩
  have appends : Step w₃ w₄ := ⟨.append [] next rfl, .of_same rfl closed⟩
  have notices : Step w₄ w₅ :=
    ⟨.look next idle rfl, fun _ => ⟨(1, 7), hid, another⟩, fun g hg => absurd hg (w₄.look_closed next.length g)⟩
  have opens : Step w₅ w₆ :=
    ⟨.opens grown rfl, fun hne => absurd rfl hne, fun _ he => (FollowPhase.opened.inj he).symm⟩
  have reads : Step w₆ w₇ := ⟨.read 1 (1, 8) next rfl rfl, .of_same rfl nofun⟩
  have run : Relation.ReflTransGen Step w₀ w₇ :=
    ((((((Relation.ReflTransGen.single looks).tail renames).tail creates).tail appends).tail notices).tail opens).tail
      reads
  exact ⟨w₇, run, rfl⟩

/-- One recorded event, shown at the start, and one in the file after the rotation. -/
theorem follow_shows_each_event_once_rotated :
    ∃ shown w, cmdHistory Reference.eventJson ⟨false, false, 10⟩ oneRecord = some shown ∧
      Relation.ReflTransGen (fun x y => FollowingStep Reference.eventJson x y ∧ x.Undisturbed y)
        (.start shown.events (1, 7) (oneRecord.live.getD [])) w ∧
      w.seen = [(0, oneRecord.live.getD []), (1, Reference.removalText 98 ++ [newline])] ∧
      w.follower.shown = (w.seenEvents Reference.eventJson).drop
        ((eventsOf Reference.eventJson (oneRecord.live.getD [])).length - 10) := by
  have hlive : oneRecord.live = some (oneRecord.live.getD []) := rfl
  have hend : LineFile.completeLen newline (oneRecord.live.getD []) = (oneRecord.live.getD []).length := by
    decide +kernel
  have hnext : 0 < (Reference.removalText 98 ++ [newline]).length := by simp
  generalize oneRecord.live.getD [] = line at hlive hend ⊢
  generalize Reference.removalText 98 ++ [newline] = next at hnext ⊢
  obtain ⟨shown, hshown, hfollow⟩ := cmdHistory_follow Reference.eventJson ⟨false, false, 10⟩ hlive rfl rfl
  obtain ⟨w, run, hseen⟩ := Following.follows_rotation Reference.eventJson shown.events hend hnext
  exact ⟨shown, w, hshown, run, hseen, (follow_shows_each_event_once hlive hshown hfollow run).2.1⟩

end KeepAt

import KeepAt.HeldCount

namespace KeepAt

variable {s : Settings} {seederFloor : Nat} {Reads : String → TorrentMeta → Prop}
  {Permits : ScanState → Candidate → ActEnv → Prop}

/-- What the acting side knows of the windows at any time. A window over the whole batch is due after
every sixteenth arrival and at the end. -/
structure WindowCovered (s : Settings) (seederFloor : Nat) (x : CalledScan) : Prop where
  noted : x.scan.acted = (x.calls.map fun c => hexEncode c.infoHash).reverse
  once : x.scan.acted.Nodup
  called : ∀ c ∈ x.calls, ∃ ev ∈ x.scan.batch, ev.candidate seederFloor = c
  listed : ∀ c ∈ x.scan.window, ∃ ev ∈ x.scan.batch, ev.candidate seederFloor = c
  covered : x.scan.batch.length % evaluateConcurrency = 0 ∨ x.scan.finishing = true →
    ∀ c ∈ actWindow s x.scan.batch seederFloor, hexEncode c.infoHash ∈ x.scan.acted ∨ c ∈ x.scan.window
  drained : x.scan.finishing = true → x.scan.unevaluated = [] ∧ x.scan.channel = []

theorem scanStep_windowCovered {x : CalledScan} {y : ScanState}
    (step : ScanStep s seederFloor Reads x.scan y) (uncalled : y.acted = x.scan.acted)
    (h : WindowCovered s seederFloor x) : WindowCovered s seederFloor { x with scan := y } := by
  cases step with
  | evaluate item env pending reads =>
    refine { h with drained := fun hf => ?_ }
    rw [(h.drained hf).1] at pending
    cases pending
  | receive ev rest idle open_ arrived =>
    have hbatch : ∀ {c : Candidate}, (∃ w ∈ x.scan.batch, w.candidate seederFloor = c) →
        ∃ w ∈ x.scan.batch ++ [ev], w.candidate seederFloor = c :=
      fun ⟨w, hw, he⟩ => ⟨w, List.mem_append_left _ hw, he⟩
    refine { h with called := fun c hc => hbatch (h.called c hc), listed := fun _ => ScanState.mem_receive_window,
                    covered := fun hdue c hc => ?_, drained := fun hf => ?_ }
    · have hfull : (x.scan.batch ++ [ev]).length % evaluateConcurrency = 0 :=
        hdue.resolve_right fun hf => absurd (open_.symm.trans hf) (by simp)
      simp only [ScanState.receive, if_pos hfull]
      exact Or.inr hc
    · exact absurd (open_.symm.trans hf) (by simp)
  | act c rest env next reads =>
    have hlisted := h.listed
    rw [next, List.forall_mem_cons] at hlisted
    by_cases hm : hexEncode c.infoHash ∈ x.scan.acted
    · simp only [ScanState.act, if_pos hm] at uncalled ⊢
      refine { h with listed := hlisted.2, covered := fun hdue d hd => ?_ }
      rcases h.covered hdue d hd with hacted | hwindow
      · exact Or.inl hacted
      · rw [next] at hwindow
        rcases List.mem_cons.mp hwindow with rfl | hrest
        · exact Or.inl hm
        · exact Or.inr hrest
    · rw [(ScanState.act_fresh s seederFloor rest env hm).2.2.1] at uncalled
      exact absurd uncalled (List.cons_ne_self _ _)
  | rehash ts hperm => exact { h with }
  | finish idle open_ walked drained =>
    refine { h with listed := fun _ => ScanState.mem_finish_window, covered := fun _ c hc => ?_,
                    drained := fun _ => ⟨walked, drained⟩ }
    by_cases hfull : x.scan.batch.length % evaluateConcurrency = 0
    · rcases h.covered (Or.inl hfull) c hc with hacted | hwindow
      · exact Or.inl hacted
      · rw [idle] at hwindow
        cases hwindow
    · simp only [ScanState.finish, if_neg hfull]
      exact Or.inr hc

theorem calledStep_windowCovered {x y : CalledScan} (step : CalledStep s seederFloor Reads Permits x y)
    (h : WindowCovered s seederFloor x) : WindowCovered s seederFloor y := by
  cases step with
  | call c rest env next fresh reads permitted =>
    obtain ⟨-, -, hacted, hwindow, hbatch, hfinishing⟩ := ScanState.act_fresh s seederFloor
      rest env fresh
    have hlisted := h.listed
    rw [next, List.forall_mem_cons] at hlisted
    have hidle : (x.scan.act s seederFloor c rest env).unevaluated = x.scan.unevaluated ∧
        (x.scan.act s seederFloor c rest env).channel = x.scan.channel := by
      simp only [ScanState.act, if_neg fresh]
      exact ⟨trivial, trivial⟩
    refine ⟨?_, ?_, ?_, ?_, ?_, ?_⟩
    · simp only [CalledScan.call, hacted, h.noted, List.map_append, List.map_cons, List.map_nil,
        List.reverse_append, List.reverse_singleton, List.singleton_append]
    · simp only [CalledScan.call, hacted]
      exact List.nodup_cons.mpr ⟨fresh, h.once⟩
    · simp only [CalledScan.call, hbatch]
      intro d hd
      rcases List.mem_append.mp hd with hd | hd
      · exact h.called d hd
      · exact List.mem_singleton.mp hd ▸ hlisted.1
    · simp only [CalledScan.call, hwindow, hbatch]
      exact hlisted.2
    · simp only [CalledScan.call, hbatch, hfinishing, hacted, hwindow]
      intro hdue d hd
      rcases h.covered hdue d hd with hacted | hwindow
      · exact Or.inl (List.mem_cons_of_mem _ hacted)
      · rw [next] at hwindow
        rcases List.mem_cons.mp hwindow with rfl | hrest
        · exact Or.inl List.mem_cons_self
        · exact Or.inr hrest
    · simp only [CalledScan.call, hfinishing, hidle]
      exact h.drained
  | quiet y step uncalled => exact scanStep_windowCovered step uncalled h

theorem beginScan_windowCovered (s : Settings) (e : Engine) (items : List Item) (env : ScanEnv) :
    WindowCovered s seederFloor ⟨beginScan s e items env, []⟩ := by
  have nothing : ∀ {c : Candidate} {P : Prop}, c ∈ actWindow s [] seederFloor → P := by
    intro c P hc
    rw [actWindow_nil] at hc
    cases hc
  simp only [beginScan]
  split
  next =>
    exact ⟨rfl, List.nodup_nil, List.forall_mem_nil _, List.forall_mem_nil _, fun _ _ hc => nothing hc,
      fun _ => ⟨rfl, rfl⟩⟩
  next =>
    refine ⟨rfl, List.nodup_nil, List.forall_mem_nil _, List.forall_mem_nil _, fun _ _ hc => nothing hc,
      fun hf => ?_⟩
    exact absurd hf Bool.false_ne_true

/-- When a scan has come to its end, everything that was evaluated is in the batch, every candidate of
the window over the whole batch has been handed to the acting side, and no hash twice. -/
theorem scan_calls_whole_window {e : Engine} {items : List Item} {env : ScanEnv} {y : CalledScan}
    (run : Relation.ReflTransGen (CalledStep s seederFloor Reads AnyCall) ⟨beginScan s e items env, []⟩ y)
    (distinct : (y.scan.batch.map Evaluated.infoHash).Nodup) (finished : y.scan.finishing = true)
    (idle : y.scan.window = []) :
    y.scan.unevaluated = [] ∧ y.scan.channel = [] ∧
      (∀ c ∈ actWindow s y.scan.batch seederFloor, c ∈ y.calls) ∧
      (y.calls.map fun c => hexEncode c.infoHash).Nodup := by
  have covered : WindowCovered s seederFloor y :=
    run_preserves (P := WindowCovered s seederFloor) calledStep_windowCovered run
      (beginScan_windowCovered s e items env)
  obtain ⟨hwalked, hdrained⟩ := covered.drained finished
  refine ⟨hwalked, hdrained, fun c hc => ?_, ?_⟩
  · have hacted : hexEncode c.infoHash ∈ y.scan.acted := by
      refine (covered.covered (Or.inr finished) c hc).resolve_right fun hw => ?_
      rw [idle] at hw
      cases hw
    rw [covered.noted, List.mem_reverse] at hacted
    obtain ⟨d, hd, hsame⟩ := List.mem_map.mp hacted
    obtain ⟨ev, hev, rfl⟩ := mem_actWindow hc
    obtain ⟨ev', hev', rfl⟩ := covered.called d hd
    have hhash : ev'.infoHash = ev.infoHash := hexEncode_injective hsame
    rwa [← List.inj_on_of_nodup_map distinct hev' hev hhash]
  · have honce := covered.once
    rwa [covered.noted, List.nodup_reverse] at honce

namespace Reference

/-- One seeder for the first of the two files, three for the second. -/
def unevenEnv : EvaluateEnv :=
  { evaluateEnv with scrape := fun _ hash => some ⟨if hash = hashA then 1 else 3, 0, 0⟩ }

def plentifulCandidate : Candidate := { evaluated with infoHash := hashB, seeders := 3 }

def unevenStart : ScanState := beginScan settings (engine [] List.nodup_nil) [item hashA, item hashB] scanEnv

/-- The second file is evaluated and arrives first. -/
def unevenWalked : ScanState :=
  (unevenStart.evaluate settings (item hashB) unevenEnv).evaluate settings (item hashA) unevenEnv

def unevenFirst : ScanState :=
  unevenWalked.receive settings 0 ⟨"t", hashB, 100 * mib, 2, 3, 0⟩ [⟨"t", hashA, 100 * mib, 2, 1, 0⟩]

def unevenArrived : ScanState := unevenFirst.receive settings 0 ⟨"t", hashA, 100 * mib, 2, 1, 0⟩ []

def unevenLast : ScanState := unevenArrived.finish settings 0

def unevenCalled : CalledScan :=
  (CalledScan.call settings 0 ⟨unevenLast, []⟩ evaluated [plentifulCandidate] (env true)).call settings 0
    plentifulCandidate [] (env true)

theorem unevenLast_steps :
    Relation.ReflTransGen (CalledStep settings 0 AnyRead AnyCall) ⟨unevenStart, []⟩ ⟨unevenLast, []⟩ := by
  have evaluates (x : ScanState) (hash : InfoHash) (pending : item hash ∈ x.unevaluated) :
      CalledStep settings 0 AnyRead AnyCall ⟨x, []⟩ ⟨x.evaluate settings (item hash) unevenEnv, []⟩ :=
    .quiet ⟨x, []⟩ _ (.evaluate x (item hash) unevenEnv pending fun _ _ => trivial) (x.evaluate_acted _ _)
  have receives (x : ScanState) (ev : Evaluated) (rest : List Evaluated) (idle : x.window = [])
      (open_ : x.finishing = false) (arrived : x.channel = ev :: rest) :
      CalledStep settings 0 AnyRead AnyCall ⟨x, []⟩ ⟨x.receive settings 0 ev rest, []⟩ :=
    .quiet ⟨x, []⟩ _ (.receive x ev rest idle open_ arrived) (x.receive_acted ev rest)
  have walks : Relation.ReflTransGen (CalledStep settings 0 AnyRead AnyCall) ⟨unevenStart, []⟩ ⟨unevenWalked, []⟩ :=
    (Relation.ReflTransGen.single (evaluates unevenStart hashB (by decide +kernel))).tail
      (evaluates (unevenStart.evaluate settings (item hashB) unevenEnv) hashA (by decide +kernel))
  have first : CalledStep settings 0 AnyRead AnyCall ⟨unevenWalked, []⟩ ⟨unevenFirst, []⟩ :=
    receives unevenWalked _ _ (by decide +kernel) (by decide +kernel) (by decide +kernel)
  have second : CalledStep settings 0 AnyRead AnyCall ⟨unevenFirst, []⟩ ⟨unevenArrived, []⟩ :=
    receives unevenFirst _ _ (by decide +kernel) (by decide +kernel) (by decide +kernel)
  have finishes : CalledStep settings 0 AnyRead AnyCall ⟨unevenArrived, []⟩ ⟨unevenLast, []⟩ :=
    .quiet ⟨unevenArrived, []⟩ unevenLast (.finish unevenArrived (by decide +kernel) (by decide +kernel)
      (by decide +kernel) (by decide +kernel)) unevenArrived.finish_acted
  exact ((walks.tail first).tail second).tail finishes

theorem unevenCalled_steps :
    Relation.ReflTransGen (CalledStep settings 0 AnyRead AnyCall) ⟨unevenStart, []⟩ unevenCalled :=
  (unevenLast_steps.tail (.call ⟨unevenLast, []⟩ evaluated [plentifulCandidate] (env true) (by decide +kernel)
    (by decide +kernel) (fun _ _ => trivial) trivial)).tail
      (.call _ plentifulCandidate [] (env true) (by decide +kernel) (by decide +kernel) (fun _ _ => trivial) trivial)

end Reference

/-- Two entries, the scarcer of which arrives last and is acted on first. -/
theorem scan_calls_whole_window_one :
    let y := Reference.unevenCalled
    actWindow Reference.settings y.scan.batch 0 = [Reference.evaluated, Reference.plentifulCandidate] ∧
      ∀ c ∈ [Reference.evaluated, Reference.plentifulCandidate], c ∈ y.calls := by
  intro y
  have hwindow : actWindow Reference.settings y.scan.batch 0 =
      [Reference.evaluated, Reference.plentifulCandidate] := by decide +kernel
  obtain ⟨-, -, hcalled, -⟩ := scan_calls_whole_window Reference.unevenCalled_steps
    (by decide +kernel) (by decide +kernel) (by decide +kernel)
  exact ⟨hwindow, hwindow ▸ hcalled⟩

end KeepAt

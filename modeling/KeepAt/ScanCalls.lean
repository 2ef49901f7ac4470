import KeepAt.Scan

namespace KeepAt

/-- A scan with the candidates it has handed to the acting side so far. -/
structure CalledScan where
  scan : ScanState
  calls : List Candidate

def CalledScan.call (s : Settings) (seederFloor : Nat) (x : CalledScan) (c : Candidate)
    (rest : List Candidate) (env : ActEnv) : CalledScan :=
  { scan := x.scan.act s seederFloor c rest env, calls := x.calls ++ [c] }

/-- A step of a scan: a call on the next candidate of the window, or anything else. `Permits` says
which calls a run may contain. -/
inductive CalledStep (s : Settings) (seederFloor : Nat) (Reads : String → TorrentMeta → Prop)
    (Permits : ScanState → Candidate → ActEnv → Prop) : CalledScan → CalledScan → Prop
  | call (x : CalledScan) (c : Candidate) (rest : List Candidate) (env : ActEnv)
      (next : x.scan.window = c :: rest) (fresh : hexEncode c.infoHash ∉ x.scan.acted)
      (reads : ∀ md, (fetchMetadata s x.scan.engine.torrentCache (hexEncode c.infoHash)
        env.fetch).2 = some md → Reads (hexEncode c.infoHash) md)
      (permitted : Permits x.scan c env) :
      CalledStep s seederFloor Reads Permits x (x.call s seederFloor c rest env)
  | quiet (x : CalledScan) (y : ScanState) (step : ScanStep s seederFloor Reads x.scan y)
      (uncalled : y.acted = x.scan.acted) :
      CalledStep s seederFloor Reads Permits x { x with scan := y }

def AnyCall (_ : ScanState) (_ : Candidate) (_ : ActEnv) : Prop := True

variable {s : Settings} {seederFloor : Nat} {Reads : String → TorrentMeta → Prop}
  {Permits : ScanState → Candidate → ActEnv → Prop}

@[simp] theorem ScanState.evaluate_acted (x : ScanState) (item : Item) (env : EvaluateEnv) :
    (x.evaluate s item env).acted = x.acted := rfl

@[simp] theorem ScanState.receive_acted (x : ScanState) (ev : Evaluated) (rest : List Evaluated) :
    (x.receive s seederFloor ev rest).acted = x.acted := rfl

@[simp] theorem ScanState.finish_acted (x : ScanState) : (x.finish s seederFloor).acted = x.acted := rfl

theorem ScanState.act_fresh (s : Settings) (seederFloor : Nat) {x : ScanState} {c : Candidate}
    (rest : List Candidate) (env : ActEnv) (h : hexEncode c.infoHash ∉ x.acted) :
    let r := actOnCandidate s x.engine c x.heldCount seederFloor env
    let y := x.act s seederFloor c rest env
    y.engine = r.1 ∧ y.heldCount = r.2 ∧ y.acted = hexEncode c.infoHash :: x.acted ∧
      y.window = rest ∧ y.batch = x.batch ∧ y.finishing = x.finishing := by
  intro r y
  simp only [y, ScanState.act, if_neg h]
  exact ⟨rfl, rfl, trivial, trivial, trivial, trivial⟩

/-- Every scan goes through the steps, with its calls listed. -/
theorem scanRun_called {x y : ScanState} (run : Relation.ReflTransGen (ScanStep s seederFloor Reads) x y) :
    ∃ calls, Relation.ReflTransGen (CalledStep s seederFloor Reads AnyCall) ⟨x, []⟩ ⟨y, calls⟩ := by
  induction run with
  | refl => exact ⟨[], .refl⟩
  | @tail u v _ step ih =>
    obtain ⟨calls, run⟩ := ih
    by_cases huncalled : v.acted = u.acted
    · exact ⟨calls, run.tail (.quiet ⟨u, calls⟩ v step huncalled)⟩
    · cases step with
      | act c rest env next reads =>
        by_cases hm : hexEncode c.infoHash ∈ u.acted
        · exact absurd (by simp only [ScanState.act, if_pos hm]) huncalled
        · exact ⟨_, run.tail (.call ⟨u, calls⟩ c rest env next hm reads trivial)⟩
      | evaluate item env pending reads => exact absurd (u.evaluate_acted item env) huncalled
      | receive ev rest idle open_ arrived => exact absurd (u.receive_acted ev rest) huncalled
      | rehash ts h => exact absurd rfl huncalled
      | finish idle open_ walked drained => exact absurd u.finish_acted huncalled

/-- Without a call the held torrents and the running count stay as they are. -/
theorem ScanStep.quiet_held {x y : ScanState} (step : ScanStep s seederFloor Reads x y)
    (uncalled : y.acted = x.acted) :
    y.heldCount = x.heldCount ∧ y.engine.state.torrents.values.Perm x.engine.state.torrents.values := by
  cases step with
  | evaluate item env pending reads => exact ⟨rfl, .refl _⟩
  | receive ev rest idle open_ arrived => exact ⟨rfl, .refl _⟩
  | act c rest env next reads =>
    by_cases hm : hexEncode c.infoHash ∈ x.acted
    · simp only [ScanState.act, if_pos hm]
      exact ⟨trivial, .refl _⟩
    · rw [(ScanState.act_fresh s seederFloor rest env hm).2.2.1] at uncalled
      exact absurd uncalled (List.cons_ne_self _ _)
  | rehash ts h => exact ⟨rfl, h⟩
  | finish idle open_ walked drained => exact ⟨rfl, .refl _⟩

end KeepAt

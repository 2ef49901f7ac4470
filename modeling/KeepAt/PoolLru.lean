import KeepAt.PoolRecency

namespace KeepAt

variable {cap : Nat} {pathOf : PoolKey → PathBuf}

/-- Requests whose files all open. -/
def opening (requests : List (PoolKey × Nat × OpenOutcome)) : List PoolCall :=
  requests.map fun r => .getOrOpen r.1 (.opened r.2.1) r.2.2

/-- The two maps hold the same keys, within the cap, every handle and every reply is for its own key, and a
deletion takes exactly the entries of its path. -/
structure PoolIsConsistent (cap : Nat) (pathOf : PoolKey → PathBuf) (calls : List PoolCall) : Prop where
  sameKeys : ∀ key, (poolRun cap pathOf calls).map.Has key ↔ (poolRun cap pathOf calls).stamps.Has key
  bounded : (poolRun cap pathOf calls).map.size ≤ cap
  opened : ∀ e ∈ (poolRun cap pathOf calls).map.values,
    e.handle.openedFor = e.key ∧ e.handle.path = pathOf e.key
  replies : ∀ before key first second, calls = before ++ [.getOrOpen key first second] →
    ∃ reply, ((poolRun cap pathOf before).call pathOf (.getOrOpen key first second)).2 = some reply ∧
      FilePool.ReplyFor pathOf key reply
  deleted : ∀ before path, calls = before ++ [.evictPath path] →
    ∀ e, e ∈ (poolRun cap pathOf calls).map.values ↔
      e ∈ (poolRun cap pathOf before).map.values ∧ e.path ≠ path

/-- The pool keeps the keys of a list ordered by their last use, and drops from its end. -/
structure PoolIsLru (cap : Nat) (pathOf : PoolKey → PathBuf) (calls : List PoolCall) : Prop where
  keys : ∀ key, (poolRun cap pathOf calls).map.Has key ↔ key ∈ (lruRun cap pathOf calls).1
  ordered : (lruRun cap pathOf calls).1.Sublist (Recency.recent (lruRun cap pathOf calls).2)
  oldestFirst : ∀ before key first second, calls = before ++ [.getOrOpen key first second] →
    key ∉ (lruRun cap pathOf before).1 →
      ∃ kept evicted, (lruRun cap pathOf before).1 = kept ++ evicted ∧
        ((lruRun cap pathOf calls).1 = kept ∨ (lruRun cap pathOf calls).1 = key :: kept)
  lastDistinct : ∀ requests, calls = opening requests → ∀ key,
    (poolRun cap pathOf calls).map.Has key ↔
      key ∈ (Recency.recent (requests.map Prod.fst).reverse).take cap

theorem lruCall_oldestFirst {cached : List PoolKey} {key : PoolKey} (pathOf : PoolKey → PathBuf)
    (first second : OpenOutcome) (h : key ∉ cached) :
    ∃ kept evicted, cached = kept ++ evicted ∧
      (lruCall cap pathOf cached (.getOrOpen key first second) = kept ∨
        lruCall cap pathOf cached (.getOrOpen key first second) = key :: kept) := by
  have htake : ∀ n, ∃ m, (if first = .exhausted then Recency.shed n cached else cached) = cached.take m := by
    intro n
    split
    next => exact ⟨_, rfl⟩
    next => exact ⟨cached.length, List.take_length.symm⟩
  obtain ⟨m, hm⟩ := htake (max (cap / 4) 1)
  rw [lruCall, if_neg h]
  dsimp only
  rw [hm]
  split
  next =>
    refine ⟨cached.take (min (cap - 1) m), cached.drop (min (cap - 1) m),
      (List.take_append_drop _ _).symm, Or.inr ?_⟩
    rw [Recency.install, List.take_take]
  next => exact ⟨cached.take m, cached.drop m, (List.take_append_drop _ _).symm, Or.inl rfl⟩

theorem lruRun_opening (hcap : 0 < cap) (requests : List (PoolKey × Nat × OpenOutcome)) :
    lruRun cap pathOf (opening requests) =
      ((Recency.recent (requests.map Prod.fst).reverse).take cap, (requests.map Prod.fst).reverse) := by
  induction requests using List.reverseRecOn with
  | nil => exact Prod.ext List.take_nil.symm rfl
  | append_singleton requests r ih =>
    have hserves : ∀ cached, serves cached r.1 (.opened r.2.1) r.2.2 = true := fun cached => by
      unfold serves
      split <;> rfl
    have hconcat : opening (requests ++ [r]) =
        opening requests ++ [.getOrOpen r.1 (.opened r.2.1) r.2.2] := List.map_append
    rw [hconcat, lruRun_concat, ih, List.map_append, List.map_singleton, List.reverse_concat]
    refine Prod.ext ?_ ?_
    · rw [← Recency.request_take_recent hcap, Recency.request, lruCall]
      simp only [hserves, if_true, reduceCtorEq, if_false]
    · simp only [servedCall, hserves, if_true]

theorem poolRun_consistent (hcap : 0 < cap) (calls : List PoolCall) : PoolIsConsistent cap pathOf calls := by
  have hsound := poolRun_sound cap pathOf calls
  constructor
  case sameKeys => exact hsound.sameKeys
  case bounded => exact hsound.bounded.trans_eq (poolRun_cap hcap calls)
  case opened => exact fun e he => ⟨(hsound.opened e he).1, (hsound.opened e he).2.1⟩
  case replies =>
    rintro before key first second -
    have hreply := ((poolRun_sound cap pathOf before).getOrOpen key first second).2
    exact ⟨_, rfl, hreply⟩
  case deleted =>
    rintro before path rfl e
    rw [poolRun_concat]
    exact FilePool.mem_evictPath _

theorem poolRun_lru (hcap : 0 < cap) (calls : List PoolCall)
    (wide : (lruRun cap pathOf calls).2.length ≤ 2 ^ 64) : PoolIsLru cap pathOf calls := by
  have htracks := poolRun_tracks hcap calls wide
  constructor
  case keys => exact htracks.handles
  case ordered => exact lruRun_ordered calls
  case oldestFirst =>
    rintro before key first second rfl hkey
    rw [lruRun_concat]
    exact lruCall_oldestFirst pathOf first second hkey
  case lastDistinct =>
    rintro requests rfl key
    rw [htracks.handles, lruRun_opening hcap]

/-- The maps and the handles are right after every sequence of calls, and the eviction order as long as no
more requests are served than there are stamps. -/
theorem pool_is_bounded_lru (hcap : 1 ≤ cap) (pathOf : PoolKey → PathBuf) (calls : List PoolCall) :
    PoolIsConsistent cap pathOf calls ∧
      ((lruRun cap pathOf calls).2.length ≤ 2 ^ 64 → PoolIsLru cap pathOf calls) :=
  ⟨poolRun_consistent hcap calls, poolRun_lru hcap calls⟩

theorem pool_is_bounded_lru_two :
    let calls : List PoolCall := [.getOrOpen ⟨0, 0⟩ (.opened 0) .failed, .getOrOpen ⟨0, 1⟩ (.opened 1) .failed]
    PoolIsConsistent 1 (fun _ => []) calls ∧ PoolIsLru 1 (fun _ => []) calls := by
  intro calls
  obtain ⟨hconsistent, hlru⟩ := pool_is_bounded_lru le_rfl (fun _ => []) calls
  exact ⟨hconsistent, hlru (by decide)⟩

namespace Reference

def fileA : PoolKey := ⟨0, 0⟩
def fileB : PoolKey := ⟨0, 1⟩
def fileC : PoolKey := ⟨0, 2⟩

def fileOf (key : PoolKey) : PathBuf := ["/", "mnt", if key = fileA then "a" else if key = fileB then "b" else "c"]

def entry (key : PoolKey) : PoolEntry := ⟨key, ⟨key, fileOf key, 0⟩, fileOf key⟩

def openingOf (keys : List PoolKey) : List PoolCall := opening (keys.map fun key => (key, 0, .failed))

/-- The pool with two of the files, in which the first one was used last. -/
def twoFiles (stampA stamp : Nat) : FilePool where
  cap := 2
  map := ⟨[entry fileB, entry fileA], by decide⟩
  stamps := ⟨[(fileA, stampA), (fileB, 1)], (by decide : [fileA, fileB].Nodup)⟩
  stamp

theorem openingOf_concat (keys : List PoolKey) (key : PoolKey) :
    openingOf (keys ++ [key]) = openingOf keys ++ [.getOrOpen key (.opened 0) .failed] := by
  rw [openingOf, openingOf, opening, opening, List.map_append, List.map_append]
  rfl

theorem twoFiles_hit (stampA stamp : Nat) :
    ((twoFiles stampA stamp).call fileOf (.getOrOpen fileA (.opened 0) .failed)).1 =
      twoFiles stamp ((stamp + 1) % 2 ^ 64) := rfl

/-- The stamp of the first file runs through the counter. -/
theorem twoFiles_run (n : Nat) :
    poolRun 2 fileOf (openingOf ([fileA, fileB] ++ List.replicate (n + 1) fileA)) =
      twoFiles ((n + 2) % 2 ^ 64) ((n + 3) % 2 ^ 64) := by
  induction n with
  | zero => rfl
  | succ n ih =>
    rw [List.replicate_succ', ← List.append_assoc, openingOf_concat, poolRun_concat, ih, twoFiles_hit,
      Nat.mod_add_mod]

theorem recent_run (n : Nat) :
    Recency.recent (List.replicate (n + 1) fileA ++ [fileB, fileA]) = [fileA, fileB] := by
  induction n with
  | zero => rfl
  | succ n ih =>
    rw [List.replicate_succ, List.cons_append, Recency.recent, ih]
    rfl

end Reference

/-- After `2 ^ 64` uses of one file the counter is back at its start, and the next file takes the place of
the one used last. -/
theorem pool_evicts_last_used :
    let keys := [Reference.fileA, Reference.fileB] ++ List.replicate (2 ^ 64 - 1) Reference.fileA ++
      [Reference.fileC]
    Reference.fileA ∈ (Recency.recent keys.reverse).take 2 ∧
      ¬(poolRun 2 Reference.fileOf (Reference.openingOf keys)).map.Has Reference.fileA := by
  intro keys
  constructor
  · have hkeys : keys.reverse = Reference.fileC ::
        (List.replicate (2 ^ 64 - 2 + 1) Reference.fileA ++ [Reference.fileB, Reference.fileA]) := by
      rw [List.reverse_concat, List.reverse_append, List.reverse_replicate]
      rfl
    rw [hkeys, Recency.recent, Reference.recent_run]
    decide
  · have hpool := Reference.twoFiles_run (2 ^ 64 - 2)
    rw [Reference.openingOf_concat, poolRun_concat]
    rw [show 2 ^ 64 - 1 = 2 ^ 64 - 2 + 1 from rfl, hpool]
    decide

end KeepAt

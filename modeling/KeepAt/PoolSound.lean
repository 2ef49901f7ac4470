import KeepAt.FilePool

namespace KeepAt

namespace FilePool

/-- Both maps hold the same keys, no more than the cap, each with the handle that was opened for it. -/
structure Sound (pathOf : PoolKey → PathBuf) (p : FilePool) : Prop where
  roomy : 0 < p.cap
  sameKeys : ∀ key, p.map.Has key ↔ p.stamps.Has key
  bounded : p.map.size ≤ p.cap
  opened : ∀ e ∈ p.map.values,
    e.handle.openedFor = e.key ∧ e.handle.path = pathOf e.key ∧ e.path = pathOf e.key

/-- The handle is one that was opened for the key, and the lookup after an insertion finds it. -/
def ReplyFor (pathOf : PoolKey → PathBuf) (key : PoolKey) (reply : PoolReply) : Prop :=
  reply ≠ .panicked ∧ ∀ handle, reply = .served handle →
    handle.openedFor = key ∧ handle.path = pathOf key

variable {pathOf : PoolKey → PathBuf} {p : FilePool}

theorem size_erase_le (m : KeyedList PoolEntry.key) (key : PoolKey) : (m.erase key).size ≤ m.size :=
  List.length_filter_le _ _

theorem size_erase_lt {m : KeyedList PoolEntry.key} {key : PoolKey} (h : m.Has key) :
    (m.erase key).size < m.size := by
  obtain ⟨e, he, rfl⟩ := KeyedList.has_iff.mp h
  have herase := KeyedList.total_erase he (fun _ => 1)
  rw [KeyedList.size_eq_total, KeyedList.size_eq_total]
  omega

theorem size_insert_le (m : KeyedList PoolEntry.key) (e : PoolEntry) : (m.insert e).size ≤ m.size + 1 :=
  Nat.succ_le_succ (size_erase_le m e.key)

theorem leastStamped_has {victim : PoolKey} (h : p.leastStamped = some victim) : p.stamps.Has victim := by
  obtain ⟨m, hm, rfl⟩ := Option.map_eq_some_iff.mp h
  exact KeyedList.has_of_mem (List.argmin_mem hm)

theorem leastStamped_none (h : p.leastStamped = none) (key : PoolKey) : ¬p.stamps.Has key := by
  have hnil : p.stamps.values = [] := List.argmin_eq_none.mp (Option.map_eq_none_iff.mp h)
  rw [KeyedList.Has, hnil]
  exact List.not_mem_nil

theorem Sound.evict (h : p.Sound pathOf) (key : PoolKey) : (p.evict key).Sound pathOf := by
  refine ⟨h.roomy, fun j => ?_, (size_erase_le _ _).trans h.bounded, fun e he => ?_⟩
  · unfold FilePool.evict
    rw [KeyedList.has_erase, KeyedList.has_erase, h.sameKeys]
  · exact h.opened e (KeyedList.mem_erase.mp he).1

theorem Sound.shed (h : p.Sound pathOf) (n : Nat) : (FilePool.shed n p).Sound pathOf := by
  induction n generalizing p with
  | zero => exact h
  | succ n ih =>
    unfold FilePool.shed
    split
    next => exact h
    next victim _ => exact ih (h.evict victim)

theorem Sound.restamp {key : PoolKey} (h : p.Sound pathOf) (hkey : p.map.Has key) :
    (p.restamp key).Sound pathOf := by
  refine ⟨h.roomy, fun j => ?_, h.bounded, h.opened⟩
  unfold FilePool.restamp
  rw [KeyedList.has_insert, ← h.sameKeys]
  constructor
  · exact Or.inr
  · rintro (rfl | hj)
    · exact hkey
    · exact hj

/-- The loop leaves room for one more key and does not stop at the key itself. -/
theorem Sound.makeRoom {key : PoolKey} {fuel : Nat} (h : p.Sound pathOf) (hkey : ¬p.map.Has key)
    (hfuel : p.map.size ≤ fuel) :
    (FilePool.makeRoom key fuel p).Sound pathOf ∧ ¬(FilePool.makeRoom key fuel p).map.Has key ∧
      (FilePool.makeRoom key fuel p).map.size < (FilePool.makeRoom key fuel p).cap := by
  induction fuel generalizing p with
  | zero => exact ⟨h, hkey, (Nat.le_zero.mp hfuel).trans_lt h.roomy⟩
  | succ fuel ih =>
    unfold FilePool.makeRoom
    split
    next hfull =>
      split
      next hnone =>
        have hempty : p.map.values = [] := List.eq_nil_iff_forall_not_mem.mpr fun e he =>
          leastStamped_none hnone e.key ((h.sameKeys e.key).mp (KeyedList.has_of_mem he))
        have hroomy := h.roomy
        have hsize : p.map.size = 0 := by rw [KeyedList.size, hempty, List.length_nil]
        omega
      next victim hsome =>
        have hvictim : p.map.Has victim := (h.sameKeys victim).mpr (leastStamped_has hsome)
        have hlt : (p.evict victim).map.size < p.map.size := size_erase_lt hvictim
        have hkept : ¬(p.evict victim).map.Has key := fun hk => hkey (KeyedList.has_erase.mp hk).1
        have hne : victim ≠ key := fun he => hkey (he ▸ hvictim)
        rw [if_neg hne]
        exact ih (h.evict victim) hkept (by omega)
    next hroom => exact ⟨h, hkey, by omega⟩

theorem Sound.stamps_size (h : p.Sound pathOf) : p.stamps.size = p.map.size := by
  have hperm : (p.stamps.values.map Prod.fst).Perm (p.map.values.map PoolEntry.key) :=
    (List.perm_ext_iff_of_nodup p.stamps.distinct p.map.distinct).mpr fun key => (h.sameKeys key).symm
  have hlen := hperm.length_eq
  rwa [List.length_map, List.length_map] at hlen

theorem Sound.insert {key : PoolKey} (h : p.Sound pathOf) (hkey : ¬p.map.Has key) (serial : Nat) :
    (p.insert key ⟨key, pathOf key, serial⟩ (pathOf key)).Sound pathOf := by
  obtain ⟨hroom, -, hlt⟩ := h.makeRoom hkey h.stamps_size.ge
  refine ⟨hroom.roomy, fun j => ?_, (size_insert_le _ _).trans hlt, fun e he => ?_⟩
  · have hsame := hroom.sameKeys j
    unfold FilePool.insert FilePool.restamp
    rw [KeyedList.has_insert, KeyedList.has_insert, hsame]
  · rcases KeyedList.mem_insert.mp he with rfl | ⟨he, -⟩
    · exact ⟨rfl, rfl, rfl⟩
    · exact hroom.opened e he

theorem openAndInsert_reply (p : FilePool) (key : PoolKey) (path : PathBuf) (serial : Nat) :
    (p.openAndInsert key path serial).2 = .served ⟨key, path, serial⟩ := by
  have hfind : (p.insert key ⟨key, path, serial⟩ path).map.find key =
      some ⟨key, ⟨key, path, serial⟩, path⟩ := by
    unfold FilePool.insert
    exact KeyedList.find_insert.trans (if_pos rfl)
  simp only [openAndInsert, hfind]

theorem replyFor_opened (p : FilePool) (key : PoolKey) (serial : Nat) :
    ReplyFor pathOf key (p.openAndInsert key (pathOf key) serial).2 := by
  rw [openAndInsert_reply]
  refine ⟨by simp, fun handle h => ?_⟩
  obtain rfl := PoolReply.served.inj h
  exact ⟨rfl, rfl⟩

theorem shed_has {key : PoolKey} {n : Nat} (h : (FilePool.shed n p).map.Has key) : p.map.Has key := by
  induction n generalizing p with
  | zero => exact h
  | succ n ih =>
    unfold FilePool.shed at h
    split at h
    next => exact h
    next victim _ => exact (KeyedList.has_erase.mp (ih (p := p.evict victim) h)).1

/-- One request keeps the maps in step and is answered with a handle for its own key. -/
theorem Sound.getOrOpen (h : p.Sound pathOf) (key : PoolKey) (first second : OpenOutcome) :
    (p.getOrOpen key (pathOf key) first second).1.Sound pathOf ∧
      ReplyFor pathOf key (p.getOrOpen key (pathOf key) first second).2 := by
  cases hfind : p.map.find key with
  | some e =>
    obtain ⟨he, hkey⟩ := KeyedList.find_eq_some.mp hfind
    simp only [FilePool.getOrOpen, hfind]
    refine ⟨h.restamp (hkey ▸ KeyedList.has_of_mem he), by simp, fun handle hh => ?_⟩
    obtain rfl := PoolReply.served.inj hh
    obtain ⟨hfor, hpath, -⟩ := h.opened e he
    exact ⟨hfor.trans hkey, hpath.trans (congrArg pathOf hkey)⟩
  | none =>
    have hkey := KeyedList.find_eq_none.mp hfind
    simp only [FilePool.getOrOpen, hfind]
    cases first with
    | opened serial => exact ⟨h.insert hkey serial, replyFor_opened p key serial⟩
    | failed => exact ⟨h, by simp, by simp⟩
    | exhausted =>
      have hshed := h.shed (max (p.cap / 4) 1)
      cases second with
      | opened serial => exact ⟨hshed.insert (fun hk => hkey (shed_has hk)) serial, replyFor_opened _ key serial⟩
      | failed => exact ⟨hshed, by simp, by simp⟩
      | exhausted => exact ⟨hshed, by simp, by simp⟩

theorem shed_cap (n : Nat) (p : FilePool) : (FilePool.shed n p).cap = p.cap := by
  induction n generalizing p with
  | zero => rfl
  | succ n ih =>
    unfold FilePool.shed
    split
    next => rfl
    next victim _ => exact ih (p.evict victim)

theorem makeRoom_cap (key : PoolKey) (fuel : Nat) (p : FilePool) :
    (FilePool.makeRoom key fuel p).cap = p.cap := by
  induction fuel generalizing p with
  | zero => rfl
  | succ fuel ih =>
    unfold FilePool.makeRoom
    split
    next =>
      split
      next => rfl
      next victim _ =>
        split
        next => rfl
        next => exact ih (p.evict victim)
    next => rfl

theorem getOrOpen_cap (p : FilePool) (key : PoolKey) (path : PathBuf) (first second : OpenOutcome) :
    (p.getOrOpen key path first second).1.cap = p.cap := by
  have hopen : ∀ (q : FilePool) (serial : Nat), (q.openAndInsert key path serial).1.cap = q.cap :=
    fun q _ => makeRoom_cap key q.stamps.size q
  have hshed := shed_cap (max (p.cap / 4) 1) p
  unfold FilePool.getOrOpen
  split
  next => rfl
  next =>
    split
    next => exact hopen p _
    next => rfl
    next =>
      dsimp only
      split
      next => exact (hopen _ _).trans hshed
      next => exact hshed
      next => exact hshed

theorem evictAll_cap (p : FilePool) (keys : List PoolKey) : (keys.foldl FilePool.evict p).cap = p.cap := by
  induction keys generalizing p with
  | nil => rfl
  | cons key keys ih => exact ih (p.evict key)

theorem call_cap (p : FilePool) (c : PoolCall) : (p.call pathOf c).1.cap = p.cap := by
  cases c with
  | evictPath path => exact evictAll_cap p _
  | getOrOpen key first second => exact getOrOpen_cap p key (pathOf key) first second

theorem Sound.evictAll (h : p.Sound pathOf) (keys : List PoolKey) :
    (keys.foldl FilePool.evict p).Sound pathOf := by
  induction keys generalizing p with
  | nil => exact h
  | cons key keys ih => exact ih (h.evict key)

theorem evictAll_map (p : FilePool) (keys : List PoolKey) :
    (keys.foldl FilePool.evict p).map = p.map.eraseAll keys := by
  induction keys generalizing p with
  | nil => rfl
  | cons key keys ih => exact ih (p.evict key)

/-- Exactly the entries of the path go. -/
theorem mem_evictPath {path : PathBuf} {e : PoolEntry} (p : FilePool) :
    e ∈ (p.evictPath path).map.values ↔ e ∈ p.map.values ∧ e.path ≠ path := by
  rw [FilePool.evictPath, evictAll_map, KeyedList.mem_eraseAll]
  refine and_congr_right fun he => not_congr ?_
  constructor
  · intro hm
    obtain ⟨e', he', hk⟩ := List.mem_map.mp hm
    obtain ⟨he', hp⟩ := List.mem_filter.mp he'
    obtain rfl := KeyedList.eq_of_key_eq he' he hk
    simpa using hp
  · intro hp
    exact List.mem_map_of_mem (List.mem_filter.mpr ⟨he, by simpa using hp⟩)

end FilePool

/-- The pool after a sequence of calls on a new one. -/
def poolRun (cap : Nat) (pathOf : PoolKey → PathBuf) (calls : List PoolCall) : FilePool :=
  calls.foldl (fun p c => (p.call pathOf c).1) (.withCap cap)

variable {cap : Nat} {pathOf : PoolKey → PathBuf}

theorem poolRun_concat (calls : List PoolCall) (c : PoolCall) :
    poolRun cap pathOf (calls ++ [c]) = ((poolRun cap pathOf calls).call pathOf c).1 :=
  List.foldl_concat _ _ _ _

theorem poolRun_cap (hcap : 0 < cap) (calls : List PoolCall) : (poolRun cap pathOf calls).cap = cap := by
  induction calls using List.reverseRecOn with
  | nil => exact max_eq_left hcap
  | append_singleton calls c ih =>
    rw [poolRun_concat]
    exact (FilePool.call_cap _ c).trans ih

theorem poolRun_sound (cap : Nat) (pathOf : PoolKey → PathBuf) (calls : List PoolCall) :
    (poolRun cap pathOf calls).Sound pathOf := by
  induction calls using List.reverseRecOn with
  | nil =>
    refine ⟨lt_max_of_lt_right Nat.zero_lt_one, fun key => Iff.rfl, Nat.zero_le _, fun e he => ?_⟩
    exact absurd he List.not_mem_nil
  | append_singleton calls c ih =>
    rw [poolRun_concat]
    cases c with
    | evictPath path => exact ih.evictAll _
    | getOrOpen key first second => exact (ih.getOrOpen key first second).1

end KeepAt

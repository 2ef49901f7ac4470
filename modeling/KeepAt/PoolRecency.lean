import KeepAt.PoolSound

namespace KeepAt

namespace FilePool

def stampOf (p : FilePool) (key : PoolKey) : Nat := ((p.stamps.find key).map Prod.snd).getD 0

/-- The pool caches these keys, stamped in this order, the one used last first, after `served`
requests were served. -/
structure Tracks (p : FilePool) (cached : List PoolKey) (served : Nat) : Prop where
  handles : ∀ key, p.map.Has key ↔ key ∈ cached
  stamped : ∀ key, p.stamps.Has key ↔ key ∈ cached
  sorted : cached.Pairwise fun a b => p.stampOf b < p.stampOf a
  below : ∀ key ∈ cached, p.stampOf key < served
  next : p.stamp = served % 2 ^ 64

variable {pathOf : PoolKey → PathBuf} {p : FilePool} {cached : List PoolKey} {served : Nat}

theorem stampOf_eq {key : PoolKey} {stamp : Nat} (h : (key, stamp) ∈ p.stamps.values) :
    p.stampOf key = stamp := by
  have hfind : p.stamps.find key = some (key, stamp) := KeyedList.find_eq_some.mpr ⟨h, rfl⟩
  rw [stampOf, hfind]
  rfl

theorem stampOf_evict {key j : PoolKey} (h : j ≠ key) : (p.evict key).stampOf j = p.stampOf j := by
  rw [stampOf, stampOf, evict, KeyedList.find_erase, if_neg h]

theorem stampOf_restamp (key j : PoolKey) :
    (p.restamp key).stampOf j = if j = key then p.stamp else p.stampOf j := by
  rw [stampOf, restamp, KeyedList.find_insert]
  split
  next => rfl
  next => rfl

theorem Tracks.nodup (h : Tracks p cached served) : cached.Nodup :=
  h.sorted.imp fun hlt he => by
    rw [he] at hlt
    exact lt_irrefl _ hlt

theorem Tracks.size (h : Tracks p cached served) : p.map.size = cached.length := by
  have hperm : (p.map.values.map PoolEntry.key).Perm cached :=
    (List.perm_ext_iff_of_nodup p.map.distinct h.nodup).mpr fun key => h.handles key
  have hlen := hperm.length_eq
  rwa [List.length_map] at hlen

theorem Tracks.stamps_size (h : Tracks p cached served) : p.stamps.size = cached.length := by
  have hperm : (p.stamps.values.map Prod.fst).Perm cached :=
    (List.perm_ext_iff_of_nodup p.stamps.distinct h.nodup).mpr fun key => h.stamped key
  have hlen := hperm.length_eq
  rwa [List.length_map] at hlen

theorem Tracks.evict (h : Tracks p cached served) (key : PoolKey) :
    Tracks (p.evict key) (cached.erase key) served := by
  have hmem : ∀ j, j ∈ cached.erase key ↔ j ∈ cached ∧ j ≠ key := fun j => by
    rw [h.nodup.mem_erase_iff, and_comm]
  refine ⟨fun j => ?_, fun j => ?_, ?_, fun j hj => ?_, h.next⟩
  · rw [FilePool.evict, KeyedList.has_erase, h.handles, hmem]
  · rw [FilePool.evict, KeyedList.has_erase, h.stamped, hmem]
  · refine (h.sorted.sublist List.erase_sublist).imp_of_mem fun {a b} ha hb hlt => ?_
    rw [stampOf_evict ((hmem a).mp ha).2, stampOf_evict ((hmem b).mp hb).2]
    exact hlt
  · obtain ⟨hj, hne⟩ := (hmem j).mp hj
    rw [stampOf_evict hne]
    exact h.below j hj

/-- The least stamp is that of the key used least recently. -/
theorem Tracks.leastStamped {front : List PoolKey} {key : PoolKey}
    (h : Tracks p (front ++ [key]) served) : p.leastStamped = some key := by
  obtain ⟨e, he, hkey⟩ := KeyedList.has_iff.mp
    ((h.stamped key).mpr (List.mem_append_right _ (List.mem_singleton_self key)))
  obtain ⟨m, hm⟩ : ∃ m, p.stamps.values.argmin Prod.snd = some m :=
    Option.ne_none_iff_exists'.mp fun hnone => List.ne_nil_of_mem he (List.argmin_eq_none.mp hnone)
  have hmem : m ∈ p.stamps.values := List.argmin_mem hm
  have hle : m.2 ≤ e.2 := List.le_of_mem_argmin he hm
  have hmcached := (h.stamped m.1).mp (KeyedList.has_of_mem hmem)
  rw [FilePool.leastStamped, hm]
  refine congrArg some ?_
  rcases List.mem_append.mp hmcached with hfront | hlast
  · have hlt := (List.pairwise_append.mp h.sorted).2.2 m.1 hfront key (List.mem_singleton_self key)
    have hstamp : p.stampOf key = e.2 := hkey ▸ stampOf_eq he
    rw [stampOf_eq hmem, hstamp] at hlt
    omega
  · exact List.mem_singleton.mp hlast

theorem Tracks.leastStamped_nil (h : Tracks p [] served) : p.leastStamped = none := by
  refine Option.eq_none_iff_forall_ne_some.mpr fun victim hsome => ?_
  exact List.not_mem_nil ((h.stamped victim).mp (leastStamped_has hsome))

theorem Tracks.evict_last {front : List PoolKey} {key : PoolKey}
    (h : Tracks p (front ++ [key]) served) : Tracks (p.evict key) front served := by
  have hlast : key ∉ front := fun hm =>
    (List.nodup_append.mp h.nodup).2.2 key hm key (List.mem_singleton_self key) rfl
  have herase : (front ++ [key]).erase key = front := by
    rw [List.erase_append_right _ hlast, List.erase_cons_head, List.append_nil]
  exact herase ▸ h.evict key

theorem Tracks.shed (h : Tracks p cached served) (n : Nat) :
    Tracks (FilePool.shed n p) (Recency.shed n cached) served := by
  induction n generalizing p cached with
  | zero =>
    rw [Recency.shed, Nat.sub_zero, List.take_length]
    exact h
  | succ n ih =>
    unfold FilePool.shed
    cases cached using List.reverseRecOn with
    | nil =>
      rw [h.leastStamped_nil, Recency.shed, List.take_nil]
      exact h
    | append_singleton front key =>
      rw [h.leastStamped]
      have htake : Recency.shed (n + 1) (front ++ [key]) = Recency.shed n front := by
        rw [Recency.shed, Recency.shed, List.length_append, List.length_singleton, Nat.add_sub_add_right,
          List.take_append_of_le_length (Nat.sub_le _ _)]
      rw [htake]
      exact ih h.evict_last

/-- The loop drops least recently used keys until one more fits. -/
theorem Tracks.makeRoom {key : PoolKey} {fuel : Nat} (hcap : 0 < p.cap) (hkey : key ∉ cached)
    (hfuel : cached.length ≤ fuel) (h : Tracks p cached served) :
    Tracks (FilePool.makeRoom key fuel p) (cached.take (p.cap - 1)) served := by
  induction fuel generalizing p cached with
  | zero =>
    have hnil : cached = [] := List.length_eq_zero_iff.mp (by omega)
    subst hnil
    rw [List.take_nil]
    exact h
  | succ fuel ih =>
    unfold FilePool.makeRoom
    rw [h.size]
    split
    next hfull =>
      cases cached using List.reverseRecOn with
      | nil =>
        simp only [List.length_nil] at hfull
        omega
      | append_singleton front last =>
        have hne : last ≠ key := fun he =>
          hkey (List.mem_append_right _ (he ▸ List.mem_singleton_self last))
        have hlen : p.cap - 1 ≤ front.length := by
          simp only [List.length_append, List.length_singleton] at hfull
          omega
        have hfuel' : front.length ≤ fuel := by
          simp only [List.length_append, List.length_singleton] at hfuel
          omega
        rw [h.leastStamped, List.take_append_of_le_length hlen]
        dsimp only
        rw [if_neg hne]
        have hcap' : 0 < (p.evict last).cap := hcap
        exact ih hcap' (fun hm => hkey (List.mem_append_left _ hm)) hfuel' h.evict_last
    next hroom =>
      rw [List.take_of_length_le (by omega)]
      exact h

/-- A stamp moves the key to the front, whichever way the map gets its handle. -/
theorem Tracks.use {key : PoolKey} (h : Tracks p cached served) (hwide : served < 2 ^ 64)
    (map : KeyedList PoolEntry.key) (hmap : ∀ j, map.Has j ↔ j = key ∨ j ∈ cached) :
    Tracks { p.restamp key with map } (Recency.touch key cached) (served + 1) := by
  have hstamp : p.stamp = served := h.next.trans (Nat.mod_eq_of_lt hwide)
  have hnew : ∀ j, FilePool.stampOf { p.restamp key with map } j =
      if j = key then served else p.stampOf j := fun j => by
    rw [← hstamp]
    exact stampOf_restamp key j
  have hrest : ∀ j ∈ cached.erase key, j ≠ key ∧ p.stampOf j < served := fun j hj => by
    obtain ⟨hne, hj⟩ := h.nodup.mem_erase_iff.mp hj
    exact ⟨hne, h.below j hj⟩
  refine ⟨fun j => ?_, fun j => ?_, ?_, fun j hj => ?_, ?_⟩
  · rw [Recency.mem_touch h.nodup]
    exact hmap j
  · rw [Recency.mem_touch h.nodup, ← h.stamped j]
    exact KeyedList.has_insert
  · refine List.pairwise_cons.mpr ⟨fun j hj => ?_, ?_⟩
    · rw [hnew, hnew, if_pos rfl, if_neg (hrest j hj).1]
      exact (hrest j hj).2
    · refine (h.sorted.sublist List.erase_sublist).imp_of_mem fun {a b} ha hb hlt => ?_
      rw [hnew, hnew, if_neg (hrest a ha).1, if_neg (hrest b hb).1]
      exact hlt
  · rw [hnew]
    split
    next => exact Nat.lt_succ_self served
    next hne =>
      have hcached := ((Recency.mem_touch h.nodup).mp hj).resolve_left hne
      have := h.below j hcached
      omega
  · change (p.stamp + 1) % 2 ^ 64 = (served + 1) % 2 ^ 64
    rw [hstamp]

theorem Tracks.hit {key : PoolKey} (h : Tracks p cached served) (hwide : served < 2 ^ 64)
    (hkey : key ∈ cached) : Tracks (p.restamp key) (Recency.touch key cached) (served + 1) := by
  refine h.use hwide p.map fun j => ?_
  rw [h.handles]
  exact ⟨Or.inr, fun hj => hj.elim (fun he => he ▸ hkey) id⟩

/-- Inserting a key that is not cached. -/
theorem Tracks.insert {key : PoolKey} (h : Tracks p cached served) (hcap : 0 < p.cap)
    (hwide : served < 2 ^ 64) (hkey : key ∉ cached) (handle : PoolHandle) (path : PathBuf) :
    Tracks (p.insert key handle path) (Recency.install p.cap key cached) (served + 1) := by
  have hroom := h.makeRoom hcap hkey h.stamps_size.ge
  have hkept : key ∉ cached.take (p.cap - 1) := fun hm => hkey (List.mem_of_mem_take hm)
  have hinstall : Recency.install p.cap key cached = Recency.touch key (cached.take (p.cap - 1)) := by
    rw [Recency.install, Recency.touch, List.erase_of_not_mem hkept]
  rw [hinstall]
  refine hroom.use hwide _ fun j => ?_
  rw [KeyedList.has_insert, ← hroom.handles j]
  rfl

theorem Tracks.evictAll (h : Tracks p cached served) (keys : List PoolKey) :
    Tracks (keys.foldl FilePool.evict p) (cached.filter fun key => key ∉ keys) served := by
  induction keys generalizing p cached with
  | nil =>
    rw [List.filter_eq_self.mpr fun _ _ => by simp]
    exact h
  | cons key keys ih =>
    have hfilter : (cached.filter fun j => j ∉ key :: keys) =
        (cached.erase key).filter fun j => j ∉ keys := by
      rw [h.nodup.erase_eq_filter, List.filter_filter]
      refine List.filter_congr fun j _ => ?_
      by_cases hj : j = key <;> simp [hj]
    rw [hfilter]
    exact ih (h.evict key)

theorem Tracks.evictPath (h : Tracks p cached served) (hsound : p.Sound pathOf) (path : PathBuf) :
    Tracks (p.evictPath path) (cached.filter fun key => pathOf key ≠ path) served := by
  have hkeys : ∀ key ∈ cached,
      (key ∈ (p.map.values.filter fun e => e.path = path).map PoolEntry.key ↔ pathOf key = path) := by
    intro key hkey
    obtain ⟨e, he, rfl⟩ := KeyedList.has_iff.mp ((h.handles key).mpr hkey)
    have hpath := (hsound.opened e he).2.2
    constructor
    · intro hm
      obtain ⟨e', he', hk⟩ := List.mem_map.mp hm
      obtain ⟨he', hp⟩ := List.mem_filter.mp he'
      obtain rfl := KeyedList.eq_of_key_eq he' he hk
      rw [← hpath]
      simpa using hp
    · intro hp
      exact List.mem_map_of_mem (List.mem_filter.mpr ⟨he, by simpa [hpath] using hp⟩)
  have hfilter : (cached.filter fun key => pathOf key ≠ path) = cached.filter fun key =>
      key ∉ (p.map.values.filter fun e => e.path = path).map PoolEntry.key :=
    List.filter_congr fun key hkey => by rw [decide_eq_decide, ne_eq, hkeys key hkey]
  rw [hfilter]
  exact h.evictAll _

/-- One request does to the keys what the bounded list does. -/
theorem Tracks.getOrOpen {key : PoolKey} {first second : OpenOutcome} (h : Tracks p cached served)
    (hcap : 0 < p.cap) (hwide : serves cached key first second = true → served < 2 ^ 64)
    (pathOf : PoolKey → PathBuf) :
    Tracks (p.getOrOpen key (pathOf key) first second).1
      (lruCall p.cap pathOf cached (.getOrOpen key first second))
      (if serves cached key first second then served + 1 else served) := by
  cases hfind : p.map.find key with
  | some e =>
    obtain ⟨he, hkey⟩ := KeyedList.find_eq_some.mp hfind
    have hcached : key ∈ cached := (h.handles key).mp (hkey ▸ KeyedList.has_of_mem he)
    have hserves : serves cached key first second = true := if_pos hcached
    rw [hserves, lruCall, if_pos hcached, if_pos rfl]
    simp only [FilePool.getOrOpen, hfind]
    exact h.hit (hwide hserves) hcached
  | none =>
    have hcached : key ∉ cached := fun hm => KeyedList.find_eq_none.mp hfind ((h.handles key).mpr hm)
    rw [lruCall, if_neg hcached]
    simp only [serves, if_neg hcached] at hwide
    simp only [FilePool.getOrOpen, hfind, serves, if_neg hcached]
    cases first with
    | opened serial => exact h.insert hcap (hwide rfl) hcached _ (pathOf key)
    | failed => exact h
    | exhausted =>
      have hshed := h.shed (max (p.cap / 4) 1)
      have hsame := shed_cap (max (p.cap / 4) 1) p
      have hkept : key ∉ Recency.shed (max (p.cap / 4) 1) cached :=
        fun hm => hcached (List.mem_of_mem_take hm)
      cases second with
      | opened serial =>
        have hinsert := hshed.insert (hsame.symm ▸ hcap) (hwide rfl) hkept ⟨key, pathOf key, serial⟩ (pathOf key)
        rw [hsame] at hinsert
        exact hinsert
      | failed => exact hshed
      | exhausted => exact hshed

end FilePool

/-- The keys a bounded pool keeps, and the requests served, after these calls. -/
def lruRun (cap : Nat) (pathOf : PoolKey → PathBuf) (calls : List PoolCall) :
    List PoolKey × List PoolKey :=
  calls.foldl (fun x c => (lruCall cap pathOf x.1 c, servedCall x.1 x.2 c)) ([], [])

variable {cap : Nat} {pathOf : PoolKey → PathBuf}

theorem lruRun_concat (calls : List PoolCall) (c : PoolCall) :
    lruRun cap pathOf (calls ++ [c]) =
      (lruCall cap pathOf (lruRun cap pathOf calls).1 c,
        servedCall (lruRun cap pathOf calls).1 (lruRun cap pathOf calls).2 c) :=
  List.foldl_concat _ _ _ _

theorem lruCall_sublist {cached history : List PoolKey} (c : PoolCall)
    (h : cached.Sublist (Recency.recent history)) :
    (lruCall cap pathOf cached c).Sublist (Recency.recent (servedCall cached history c)) := by
  cases c with
  | evictPath path => exact List.filter_sublist.trans h
  | getOrOpen key first second =>
    rw [lruCall, servedCall]
    split
    next hkey =>
      have hserves : serves cached key first second = true := if_pos hkey
      rw [if_pos hserves]
      exact Recency.touch_sublist key h
    next hkey =>
      have hkept : ∀ n, (if first = .exhausted then Recency.shed n cached else cached).Sublist cached := by
        intro n
        split
        next => exact List.take_sublist _ _
        next => exact List.Sublist.refl _
      dsimp only
      split
      next => exact Recency.install_sublist cap (fun hm => hkey ((hkept _).subset hm)) ((hkept _).trans h)
      next => exact (hkept _).trans h

/-- After any calls the bounded list is in the order of the last uses. -/
theorem lruRun_ordered (calls : List PoolCall) :
    (lruRun cap pathOf calls).1.Sublist (Recency.recent (lruRun cap pathOf calls).2) := by
  induction calls using List.reverseRecOn with
  | nil => exact List.Sublist.refl _
  | append_singleton calls c ih =>
    rw [lruRun_concat]
    exact lruCall_sublist c ih

theorem servedCall_length (cached history : List PoolKey) (c : PoolCall) :
    history.length ≤ (servedCall cached history c).length := by
  unfold servedCall
  split
  next => split <;> simp
  next => exact le_rfl

/-- The pool caches the keys of the bounded list, as long as the stamps have not run out. -/
theorem poolRun_tracks (hcap : 0 < cap) (calls : List PoolCall)
    (wide : (lruRun cap pathOf calls).2.length ≤ 2 ^ 64) :
    (poolRun cap pathOf calls).Tracks (lruRun cap pathOf calls).1 (lruRun cap pathOf calls).2.length := by
  induction calls using List.reverseRecOn with
  | nil =>
    refine ⟨fun key => Iff.rfl, fun key => Iff.rfl, List.Pairwise.nil, fun key hkey => ?_, rfl⟩
    exact absurd hkey List.not_mem_nil
  | append_singleton calls c ih =>
    rw [lruRun_concat] at wide ⊢
    rw [poolRun_concat]
    have hle := (servedCall_length (lruRun cap pathOf calls).1 (lruRun cap pathOf calls).2 c).trans wide
    have htracks := ih hle
    have hsame : (poolRun cap pathOf calls).cap = cap := poolRun_cap hcap calls
    cases c with
    | evictPath path => exact htracks.evictPath (poolRun_sound cap pathOf calls) path
    | getOrOpen key first second =>
      have hwide : serves (lruRun cap pathOf calls).1 key first second = true →
          (lruRun cap pathOf calls).2.length < 2 ^ 64 := fun hserves => by
        simp only [servedCall, hserves, if_true, List.length_cons] at wide
        omega
      have hlen : (servedCall (lruRun cap pathOf calls).1 (lruRun cap pathOf calls).2
          (.getOrOpen key first second)).length =
            if serves (lruRun cap pathOf calls).1 key first second then
              (lruRun cap pathOf calls).2.length + 1
            else (lruRun cap pathOf calls).2.length := by
        rw [servedCall]
        split <;> rfl
      have hnext := htracks.getOrOpen (hsame.symm ▸ hcap) hwide pathOf
      rw [hsame] at hnext
      rw [hlen]
      exact hnext

end KeepAt

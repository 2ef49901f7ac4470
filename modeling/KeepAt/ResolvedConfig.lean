import KeepAt.Config

namespace KeepAt

/-- The configuration an engine runs with: every limit a byte count the parser can produce, and
no directory listed twice. -/
structure ResolvedConfig where
  config : Config
  distinct : (config.storage.map StorageLocation.path).Nodup
  bounded : ∀ l ∈ config.storage, l.limitBytes < u64Max

def resolveLocation (fmt : Formatters) (canonicalize : PathBuf → Option PathBuf)
    (deviceTotal : PathBuf → Option Nat) (loc : StorageLocation) : Except String StorageLocation :=
  let path := (canonicalize loc.path).getD loc.path
  match loc.limit with
  | .all =>
    match deviceTotal path with
    | none => .error ("resolving `limit: max` for " ++ fmt.displayPath path ++ ": cannot stat device")
    | some total => .ok ⟨path, .bytes (((total : Nat) : F64) * allLimitFraction).toU64⟩
  | limit => .ok ⟨path, limit⟩

/-- The error names the first path that recurs. -/
def checkDistinct (fmt : Formatters) (seen : List PathBuf) : List PathBuf → Except String Unit
  | [] => .ok ()
  | p :: ps =>
    if p ∈ seen then
      .error ("storage location " ++ fmt.displayPath p ++
        " is listed more than once (aliases of the same directory count once)")
    else checkDistinct fmt (p :: seen) ps

def resolveAllLimits (fmt : Formatters) (canonicalize : PathBuf → Option PathBuf)
    (deviceTotal : PathBuf → Option Nat) (cfg : Config) : Except String Config := do
  let storage ← cfg.storage.mapM (resolveLocation fmt canonicalize deviceTotal)
  checkDistinct fmt [] (storage.map StorageLocation.path)
  return { cfg with storage }

theorem representable_two_pow_64 : Representable (2 ^ 64) := by
  have := representable_mul_two_zpow (m := 1) (e := 64) (by norm_num) (by norm_num) (by norm_num)
  norm_num at this ⊢
  exact this

theorem natCast_u64Max : ((u64Max : Nat) : F64) = .fin (2 ^ 64) representable_two_pow_64 := by
  decide +kernel

theorem toU64_lt_of_not_le {b : F64} (h : ¬((u64Max : Nat) : F64) ≤ b) : b.toU64 < u64Max := by
  rw [natCast_u64Max] at h
  cases b with
  | nan => decide
  | inf s =>
    cases s with
    | true => decide
    | false => exact absurd rfl h
  | fin q hq =>
    have hlt : q < 2 ^ 64 := by
      rw [← not_le]
      exact fun hle => h (decide_eq_true hle)
    have hf := F64.representable_floor_lt hq hlt
    simp only [F64.toU64, u64Max]
    omega

theorem parseByteSize_lt_u64Max {fmt : Formatters} {s : String} {n : Nat}
    (h : parseByteSize fmt s = .ok n) : n < u64Max := by
  unfold parseByteSize at h
  dsimp only at h
  split at h
  next => cases h
  next =>
    split at h
    next => cases h
    next =>
      split at h
      next => cases h
      next =>
        split at h
        next => cases h
        next hn => exact Except.ok.inj h ▸ toU64_lt_of_not_le hn

/-- A limit as a config file or a flag spells it is below `u64::MAX`. -/
theorem StorageLimit.parse_lt_u64Max {fmt : Formatters} {s : String} {l : StorageLocation}
    (h : StorageLimit.parse fmt s = .ok l.limit) : l.limitBytes < u64Max := by
  unfold StorageLimit.parse at h
  dsimp only at h
  split at h
  next =>
    have hall : l.limit = .all := (Except.ok.inj h).symm
    simp [StorageLocation.limitBytes, hall, u64Max]
  next =>
    cases hsize : parseByteSize fmt (String.ofList (trim s.toList)) with
    | error e =>
      rw [hsize] at h
      cases h
    | ok n =>
      rw [hsize] at h
      have hbytes : l.limit = .bytes n := (Except.ok.inj h).symm
      simp only [StorageLocation.limitBytes, hbytes]
      exact parseByteSize_lt_u64Max hsize

theorem round64_le_of_le_grid {q b : ℚ} (hq : 0 ≤ q) (h : q ≤ b)
    (hb : ∃ m e : ℤ, |m| < 2 ^ 53 ∧ -1074 ≤ e ∧ b = m * 2 ^ e) : round64 q ≤ b :=
  (round64_mono hq h).trans (round64_eq_self hb).le

theorem ofRat_of_le {q b : ℚ} (hq : 0 ≤ q) (h : q ≤ b) (hb : Representable b) :
    ∃ hr, F64.ofRat q = .fin (round64 q) hr := by
  have hle := round64_le_of_le_grid hq h hb.2
  have habs : |round64 q| < 2 ^ 1024 := by
    rw [abs_of_nonneg (round64_nonneg hq)]
    exact (hle.trans (le_abs_self b)).trans_lt hb.1
  exact ⟨⟨habs, round64_grid q⟩, dif_pos habs⟩

/-- `limit: max` leaves a margin below the capacity, so it stays clear of `u64::MAX`. -/
theorem allLimit_lt_u64Max {total : Nat} (h : total ≤ u64Max) :
    (((total : Nat) : F64) * allLimitFraction).toU64 < u64Max := by
  have htotal : (total : ℚ) ≤ 2 ^ 64 := by
    have : total ≤ 2 ^ 64 := h.trans (by decide)
    exact_mod_cast this
  have hrep64 := representable_two_pow_64
  have hrep63 : Representable (63 * 2 ^ 58) := by
    have := representable_mul_two_zpow (m := 63) (e := 58) (by norm_num) (by norm_num) (by norm_num)
    norm_num at this ⊢
    exact this
  have hrepfrac : Representable (63 / 64) := by
    have := representable_mul_two_zpow (m := 63) (e := -6) (by norm_num) (by norm_num) (by norm_num)
    norm_num at this ⊢
    exact this
  obtain ⟨ht, htot⟩ := ofRat_of_le (Nat.cast_nonneg total) htotal hrep64
  obtain ⟨hf, hfrac⟩ := ofRat_of_le (q := 975 / 1000) (by norm_num) (by norm_num) hrepfrac
  have hle1 := round64_le_of_le_grid (Nat.cast_nonneg total) htotal hrep64.2
  have hle2 := round64_le_of_le_grid (q := 975 / 1000) (by norm_num) (by norm_num) hrepfrac.2
  have hnn1 := round64_nonneg (Nat.cast_nonneg (α := ℚ) total)
  have hnn2 := round64_nonneg (q := 975 / 1000) (by norm_num)
  have hprod : round64 total * round64 (975 / 1000) ≤ 63 * 2 ^ 58 :=
    (mul_le_mul hle1 hle2 hnn2 (by norm_num)).trans (by norm_num)
  have hnn := mul_nonneg hnn1 hnn2
  obtain ⟨hp, hmul⟩ := ofRat_of_le hnn hprod hrep63
  have hval : (((total : Nat) : F64) * allLimitFraction) =
      .fin (round64 (round64 total * round64 (975 / 1000))) hp := by
    show F64.mul (F64.ofRat total) (F64.ofRat (975 / 1000)) = _
    rw [htot, hfrac]
    exact hmul
  have hle := round64_le_of_le_grid hnn hprod hrep63.2
  have hfloor : ⌊round64 (round64 total * round64 (975 / 1000))⌋ ≤ 63 * 2 ^ 58 := by
    have := Int.floor_le_floor hle
    exact this.trans (by norm_num)
  rw [hval]
  simp only [F64.toU64, u64Max]
  omega

theorem checkDistinct_ok {fmt : Formatters} {seen ps : List PathBuf} (h : checkDistinct fmt seen ps = .ok ()) :
    ps.Nodup ∧ ∀ p ∈ ps, p ∉ seen := by
  induction ps generalizing seen with
  | nil => exact ⟨List.nodup_nil, fun p hp => absurd hp List.not_mem_nil⟩
  | cons p ps ih =>
    simp only [checkDistinct] at h
    split at h
    next => cases h
    next hn =>
      obtain ⟨hnodup, hnew⟩ := ih h
      exact ⟨List.nodup_cons.mpr ⟨fun hp => hnew p hp List.mem_cons_self, hnodup⟩,
        List.forall_mem_cons.mpr ⟨hn, fun q hq hseen => hnew q hq (List.mem_cons_of_mem _ hseen)⟩⟩

theorem resolveLocation_bounded {fmt : Formatters} {canonicalize : PathBuf → Option PathBuf}
    {deviceTotal : PathBuf → Option Nat} {loc out : StorageLocation}
    (capacity : ∀ p total, deviceTotal p = some total → total ≤ u64Max)
    (hl : loc.limitBytes < u64Max)
    (h : resolveLocation fmt canonicalize deviceTotal loc = .ok out) : out.limitBytes < u64Max := by
  unfold resolveLocation at h
  dsimp only at h
  split at h
  next =>
    split at h
    next => cases h
    next total ht => exact Except.ok.inj h ▸ allLimit_lt_u64Max (capacity _ _ ht)
  next => exact Except.ok.inj h ▸ hl

theorem mapM_except_mem {α β : Type} {f : α → Except String β} {xs : List α} {ys : List β}
    (h : xs.mapM f = .ok ys) : ∀ y ∈ ys, ∃ x ∈ xs, f x = .ok y := by
  induction xs generalizing ys with
  | nil =>
    intro y hy
    simp only [List.mapM_nil, pure, Except.pure, Except.ok.injEq] at h
    simp [← h] at hy
  | cons x xs ih =>
    rw [List.mapM_cons] at h
    cases hx : f x with
    | error e => simp [hx, bind, Except.bind] at h
    | ok y =>
      cases hxs : xs.mapM f with
      | error e => simp [hx, hxs, bind, Except.bind] at h
      | ok rest =>
        simp only [hx, hxs, bind, Except.bind, pure, Except.pure, Except.ok.injEq] at h
        subst h
        intro z hz
        rcases List.mem_cons.mp hz with rfl | hz
        · exact ⟨x, List.mem_cons_self, hx⟩
        · obtain ⟨w, hw, he⟩ := ih hxs z hz
          exact ⟨w, List.mem_cons_of_mem _ hw, he⟩

/-- Resolving a parsed configuration gives what the engine requires of it. -/
theorem resolveAllLimits_resolved {fmt : Formatters} {canonicalize : PathBuf → Option PathBuf}
    {deviceTotal : PathBuf → Option Nat} {cfg out : Config}
    (capacity : ∀ p total, deviceTotal p = some total → total ≤ u64Max)
    (parsed : ∀ l ∈ cfg.storage, ∃ text, StorageLimit.parse fmt text = .ok l.limit)
    (h : resolveAllLimits fmt canonicalize deviceTotal cfg = .ok out) :
    ∃ r : ResolvedConfig, r.config = out := by
  unfold resolveAllLimits at h
  cases hs : cfg.storage.mapM (resolveLocation fmt canonicalize deviceTotal) with
  | error e => simp [hs, bind, Except.bind] at h
  | ok storage =>
    cases hd : checkDistinct fmt [] (storage.map StorageLocation.path) with
    | error e => simp [hs, hd, bind, Except.bind] at h
    | ok u =>
      simp only [hs, hd, bind, Except.bind, pure, Except.pure, Except.ok.injEq] at h
      subst h
      refine ⟨⟨_, (checkDistinct_ok hd).1, fun l hlm => ?_⟩, rfl⟩
      obtain ⟨x, hx, he⟩ := mapM_except_mem hs l hlm
      obtain ⟨text, htext⟩ := parsed x hx
      exact resolveLocation_bounded capacity (StorageLimit.parse_lt_u64Max htext) he

end KeepAt

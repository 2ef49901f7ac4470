import KeepAt.Updater

namespace KeepAt

/-- The published names use the Go architecture names. -/
def assetArch (targetArch : String) : String :=
  if targetArch = "x86_64" then "amd64"
  else if targetArch = "aarch64" then "arm64"
  else if targetArch = "arm" then "arm"
  else if targetArch = "x86" then "386"
  else targetArch

def assetName (targetArch : String) : String := "keep-at_linux_" ++ assetArch targetArch ++ ".tar.gz"

/-- A process that is not root either fails to elevate or hands the command over to an elevated child
and exits with it. -/
inductive Elevation where
  | root
  | handedOver
  | failed (message : String)

/-- What one run of the command meets. `first` and `second` are the two answers of the releases
endpoint. -/
structure SelfUpdateEnv where
  first : Except String (List Release)
  snapshotTaken : Bool
  currentExe : Except String Unit
  replaceable : Except String Unit
  elevation : Elevation
  replaceableElevated : Except String Unit
  second : Except String (List Release)
  targetArch : String
  download : String → Except String Bytes
  extractBinary : Bytes → Option Bytes
  replaceExecutable : Bytes → Except String Unit

inductive SelfUpdateOutcome where
  | alreadyCurrent
  | notNewer (latest : String)
  | handedOver
  | failed (message : String)
  | updated (newVersion : String) (binary : Bytes)
  deriving DecidableEq

structure SelfUpdate where
  snapshot : Option String := none
  outcome : SelfUpdateOutcome
  deriving DecidableEq

/-- Download the matching asset and replace the executable. -/
def applyUpdate (includeBeta : Bool) (env : SelfUpdateEnv) : Except String (String × Bytes) :=
  match fetchLatest includeBeta env.second with
  | .error e => .error e
  | .ok rel =>
    let want := assetName env.targetArch
    match rel.assets.find? (fun a => decide (a.name = want)) with
    | none => .error ("no release asset named " ++ want ++ " in " ++ rel.tagName)
    | some asset =>
      match env.download asset.browserDownloadUrl with
      | .error e => .error e
      | .ok body =>
        match env.extractBinary body with
        | none => .error ("extracting keep-at binary from " ++ asset.browserDownloadUrl)
        | some binary =>
          match env.replaceExecutable binary with
          | .error e => .error e
          | .ok _ => .ok (rel.tagName, binary)

/-- Whether this process may go on to replace the executable, or its elevated child does. -/
def ensureReplaceable (env : SelfUpdateEnv) : Except String Bool :=
  match env.currentExe with
  | .error e => .error e
  | .ok _ =>
    match env.replaceable with
    | .ok _ => .ok true
    | .error _ =>
      match env.elevation with
      | .failed e => .error e
      | .handedOver => .ok false
      | .root =>
        match env.replaceableElevated with
        | .error e => .error e
        | .ok _ => .ok true

def carryOut (includeBeta : Bool) (env : SelfUpdateEnv) : SelfUpdateOutcome :=
  match ensureReplaceable env with
  | .error e => .failed e
  | .ok false => .handedOver
  | .ok true =>
    match applyUpdate includeBeta env with
    | .error e => .failed e
    | .ok (newVersion, binary) => .updated newVersion binary

def cmdSelfUpdate (includeBeta : Bool) (current : String) (env : SelfUpdateEnv) : SelfUpdate :=
  match fetchLatest includeBeta env.first with
  | .error e => { outcome := .failed e }
  | .ok rel =>
    match decideUpdate rel.tagName current with
    | .alreadyCurrent => { outcome := .alreadyCurrent }
    | .notNewer => { outcome := .notNewer rel.tagName }
    | .upgrade =>
      { snapshot := if env.snapshotTaken then some ("state.json.pre-" ++ rel.tagName) else none
        outcome := carryOut includeBeta env }

/-- A release of the list the installation reads gets as far as replacing the executable. -/
structure Installs (env : SelfUpdateEnv) (rel : Release) (binary : Bytes) : Prop where
  ready : ensureReplaceable env = .ok true
  fetched : ∃ asset body, rel.assets.find? (fun a => decide (a.name = assetName env.targetArch)) = some asset ∧
    env.download asset.browserDownloadUrl = .ok body ∧ env.extractBinary body = some binary
  replaced : env.replaceExecutable binary = .ok ()

theorem applyUpdate_ok_iff {includeBeta : Bool} {env : SelfUpdateEnv} {newVersion : String} {binary : Bytes}
    (ready : ensureReplaceable env = .ok true) :
    applyUpdate includeBeta env = .ok (newVersion, binary) ↔
      ∃ rel, fetchLatest includeBeta env.second = .ok rel ∧ Installs env rel binary ∧
        rel.tagName = newVersion := by
  constructor
  · intro h
    unfold applyUpdate at h
    split at h
    next => cases h
    next rel hrel =>
      dsimp only at h
      split at h
      next => cases h
      next asset hasset =>
        split at h
        next => cases h
        next body hbody =>
          split at h
          next => cases h
          next bin hbin =>
            split at h
            next => cases h
            next hrep =>
              obtain ⟨rfl, rfl⟩ := Prod.mk.inj (Except.ok.inj h)
              exact ⟨rel, hrel, ⟨ready, ⟨asset, body, hasset, hbody, hbin⟩, hrep⟩, rfl⟩
  · rintro ⟨rel, hrel, ⟨-, ⟨asset, body, hasset, hbody, hbin⟩, hrep⟩, rfl⟩
    simp only [applyUpdate, hrel, hasset, hbody, hbin, hrep]

theorem carryOut_updated_iff {includeBeta : Bool} {env : SelfUpdateEnv} {newVersion : String}
    {binary : Bytes} :
    carryOut includeBeta env = .updated newVersion binary ↔
      ∃ rel, fetchLatest includeBeta env.second = .ok rel ∧ Installs env rel binary ∧
        rel.tagName = newVersion := by
  unfold carryOut
  split
  next e h => exact iff_of_false (by simp) fun ⟨_, _, hi, _⟩ => absurd (h.symm.trans hi.ready) (by simp)
  next h => exact iff_of_false (by simp) fun ⟨_, _, hi, _⟩ => absurd (h.symm.trans hi.ready) (by simp)
  next h =>
    rw [← applyUpdate_ok_iff h]
    split
    next e he => simp [he]
    next tag bin he => simp [he]

/-- The command replaces the executable exactly when the first list offers an upgrade and a release of
the second one installs. -/
theorem cmdSelfUpdate_updated_iff {includeBeta : Bool} {current : String} {env : SelfUpdateEnv}
    {newVersion : String} {binary : Bytes} :
    (cmdSelfUpdate includeBeta current env).outcome = .updated newVersion binary ↔
      (∃ offered, fetchLatest includeBeta env.first = .ok offered ∧
        decideUpdate offered.tagName current = .upgrade) ∧
      ∃ rel, fetchLatest includeBeta env.second = .ok rel ∧ Installs env rel binary ∧
        rel.tagName = newVersion := by
  unfold cmdSelfUpdate
  split
  next e h => simp [h]
  next offered h =>
    have hoffered : (∃ rel, fetchLatest includeBeta env.first = .ok rel ∧
        decideUpdate rel.tagName current = .upgrade) ↔ decideUpdate offered.tagName current = .upgrade := by
      simp [h]
    rw [hoffered, ← carryOut_updated_iff]
    split
    next hd => simp [hd]
    next hd => simp [hd]
    next hd => simp [hd]

/-- The first list offers an upgrade, the installation goes through, and by then the list starts, for the
channel, with a release that is not newer than what runs. -/
def InstallsBehind (includeBeta : Bool) (current : String) (env : SelfUpdateEnv) : Prop :=
  ∃ listed relisted offered rel binary, env.first = .ok listed ∧ Newest includeBeta listed offered ∧
    decideUpdate offered.tagName current = .upgrade ∧ env.second = .ok relisted ∧
    Newest includeBeta relisted rel ∧ Installs env rel binary ∧
    versionKey rel.tagName ≤ versionKey current

/-- What gets installed is always of the requested channel, and is an upgrade exactly when the list has
not moved behind the running version between the two requests. -/
theorem cmdSelfUpdate_upgrades_iff (includeBeta : Bool) (current : String) (env : SelfUpdateEnv) :
    (∀ newVersion binary, (cmdSelfUpdate includeBeta current env).outcome = .updated newVersion binary →
      decideUpdate newVersion current = .upgrade ∧
        channelOf newVersion = some (wantedChannel includeBeta)) ↔
      ¬InstallsBehind includeBeta current env := by
  constructor
  · rintro h ⟨listed, relisted, offered, rel, binary, hfirst, hoffered, hup, hsecond, hrel, hi, hle⟩
    have hout : (cmdSelfUpdate includeBeta current env).outcome = .updated rel.tagName binary :=
      cmdSelfUpdate_updated_iff.mpr ⟨⟨offered, fetchLatest_ok_iff.mpr ⟨listed, hfirst, hoffered⟩, hup⟩,
        rel, fetchLatest_ok_iff.mpr ⟨relisted, hsecond, hrel⟩, hi, rfl⟩
    exact absurd (decideUpdate_eq_upgrade.mp (h _ _ hout).1) (not_lt_of_ge hle)
  · intro h newVersion binary hout
    obtain ⟨⟨offered, hoffered, hup⟩, rel, hrel, hi, rfl⟩ := cmdSelfUpdate_updated_iff.mp hout
    obtain ⟨listed, hfirst, hnewest⟩ := fetchLatest_ok_iff.mp hoffered
    obtain ⟨relisted, hsecond, hrelnewest⟩ := fetchLatest_ok_iff.mp hrel
    refine ⟨decideUpdate_eq_upgrade.mpr (not_le.mp fun hle => h ?_), hrelnewest.1.2⟩
    exact ⟨listed, relisted, offered, rel, binary, hfirst, hnewest, hup, hsecond, hrelnewest, hi, hle⟩

theorem newest_unique {includeBeta : Bool} {releases : List Release} {r r' : Release}
    (h : Newest includeBeta releases r) (h' : Newest includeBeta releases r') : r = r' := by
  have hr := fetchLatest_ok_iff.mpr ⟨releases, rfl, h⟩
  rw [fetchLatest_ok_iff.mpr ⟨releases, rfl, h'⟩] at hr
  exact (Except.ok.inj hr).symm

/-- A list that does not change between the two requests is never installed from backwards. -/
theorem not_installsBehind_of_same {includeBeta : Bool} {current : String} {env : SelfUpdateEnv}
    (same : env.second = env.first) : ¬InstallsBehind includeBeta current env := by
  rintro ⟨listed, relisted, offered, rel, binary, hfirst, hoffered, hup, hsecond, hrel, -, hle⟩
  obtain rfl := Except.ok.inj (hsecond.symm.trans (same.trans hfirst))
  obtain rfl := newest_unique hoffered hrel
  exact absurd (decideUpdate_eq_upgrade.mp hup) (not_lt_of_ge hle)

namespace Reference

def release (tagName : String) : Release :=
  { tagName, assets := [⟨"keep-at_linux_amd64.tar.gz", "https://host/" ++ tagName⟩] }

/-- Everything succeeds, and the list is replaced between the two requests. -/
def updateEnv (first second : String) : SelfUpdateEnv where
  first := .ok [release first]
  snapshotTaken := true
  currentExe := .ok ()
  replaceable := .ok ()
  elevation := .root
  replaceableElevated := .ok ()
  second := .ok [release second]
  targetArch := "x86_64"
  download := fun _ => .ok [1]
  extractBinary := some
  replaceExecutable := fun _ => .ok ()

end Reference

/-- Version 0.9 is offered `v0.10`, and a `v0.8` tagged anew in between is installed over it. -/
theorem cmdSelfUpdate_downgrades :
    (cmdSelfUpdate false "0.9" (Reference.updateEnv "v0.10" "v0.8")).outcome = .updated "v0.8" [1] ∧
      decideUpdate "v0.8" "0.9" = .notNewer :=
  ⟨by decide +kernel, by decide +kernel⟩

end KeepAt

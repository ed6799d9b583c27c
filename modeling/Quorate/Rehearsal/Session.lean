/-
Sessions: a ceremony in rehearsal. The chains may be changed between two steps, and the next step
goes by what they encode and decode then.
-/
import Quorate.Ceremony.Preview
import Quorate.Ceremony.Quorum
import Quorate.Ceremony.Submission
import Quorate.Rehearsal.Stage

namespace Quorate.Rehearsal

/-- Which chain in memory stands for which selector. -/
abbrev Wiring := Table Selector Nat

/-- What a wiring connects. -/
def Wiring.connect {α : Type} (w : Wiring) (f : Nat → α) : Table Selector α := w.map fun _ i => f i

def Stage.encoders (s : Stage) (w : Wiring) : Encoders :=
  w.connect fun i => ((s.chains[i]?).getD (.fresh default)).encoder

def Stage.decoders (s : Stage) (w : Wiring) : Decoders :=
  w.connect fun i => ((s.chains[i]?).getD (.fresh default)).decoder

/-- A ceremony in rehearsal, and which chains encode and decode for it. -/
structure Session where
  stage : Stage
  ceremony : Ceremony Stage
  encoding : Wiring
  decoding : Option Wiring

namespace Session

/-- Starts a session. Without chains to encode, the executors do. -/
def start (stage : Stage) (p : Proposal) (encoding : Option Wiring) (executing : Wiring) :
    Except Error Session := do
  let executors := executing.connect (executor stage)
  match encoding with
  | some w =>
    let c ← Ceremony.start p (stage.encoders w)
    .ok ⟨stage, c.withExecutors executors, w, none⟩
  | none =>
    let c ← Ceremony.ofExecutors p executors
    .ok ⟨stage, c, executing, none⟩

/-- The ceremony with encoders and decoders that do as the chains say now. -/
def current (s : Session) : Ceremony Stage :=
  let c := s.ceremony.withEncoders (s.stage.encoders s.encoding)
  match s.decoding with
  | some w => c.withDecoders (s.stage.decoders w)
  | none => c

/-- Runs a step of the ceremony. Gives its result, and the session with the chains as it left them.
-/
def run {α : Type} (s : Session) (step : Ceremony Stage → Ceremony.Step Stage α) :
    Except Error α × Session :=
  let (result, stage) := (step s.current).run s.stage
  (result, { s with stage := stage })

end Session

end Quorate.Rehearsal

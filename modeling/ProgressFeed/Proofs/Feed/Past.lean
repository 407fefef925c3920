import ProgressFeed.Proofs.Feed.Run

/-!
# Runs and their past

What a run does next does not depend on what it has recorded: a move adds to the records what it
would have recorded with no past at all.
-/

namespace ProgressFeed.Feed

namespace Record

def event? : Record → Option Event
  | .event _ e => some e
  | .command _ | .frame _ | .taken _ => none

def command? : Record → Option Command
  | .command c => some c
  | .event .. | .frame _ | .taken _ => none

end Record

theorem filterMap_event?_command (commands : List Command) :
    (commands.map Record.command).filterMap Record.event? = [] := by
  simp [Record.event?]

theorem filterMap_command?_command (commands : List Command) :
    (commands.map Record.command).filterMap Record.command? = commands := by
  simp [List.filterMap_map, Function.comp_def, Record.command?]

theorem Step.filterMap_event?_records (s : Step) (cause : Cause) :
    (s.records cause).filterMap Record.event? = (s.pause.map Prod.fst).toList := by
  rw [Step.records, List.filterMap_append, filterMap_event?_command]
  cases s.pause <;> rfl

theorem Step.filterMap_command?_records (s : Step) (cause : Cause) :
    (s.records cause).filterMap Record.command? = s.commands := by
  rw [Step.records, List.filterMap_append, filterMap_command?_command]
  cases s.pause <;> simp [Record.command?]

namespace Run

variable {past : List Record} {r : Run}

/-- The run with something recorded before it. -/
def behind (past : List Record) (r : Run) : Run := { r with records := past ++ r.records }

@[simp] theorem feed_behind (r : Run) : (r.behind past).feed = r.feed := rfl

@[simp] theorem isAlive_behind (r : Run) : (r.behind past).isAlive = r.isAlive := rfl

@[simp] theorem ledger_behind (r : Run) : (r.behind past).ledger = r.ledger := rfl

@[simp] theorem stack_behind (r : Run) : (r.behind past).stack = r.stack := rfl

theorem take_behind (r : Run) (cause : Cause) (s : Step) :
    (r.behind past).take cause s = (r.take cause s).behind past := by
  simp [behind, take]

theorem give_behind (r : Run) (commands : List Command) :
    (r.behind past).give commands = (r.give commands).behind past := by
  simp [behind, give]

theorem note_behind (r : Run) (x : Record) :
    (r.behind past).note x = (r.note x).behind past := by
  simp [behind, note]

theorem ifAlive_behind (r r' : Run) :
    (r.behind past).ifAlive (r'.behind past) = (r.ifAlive r').behind past := by
  cases h : r.isAlive <;> simp [ifAlive, h]

theorem hear_behind (r : Run) (i : Nat) (stamp : Stamp) (n : Channel.Notice) (o : Outside) :
    (r.behind past).hear i stamp n o = (r.hear i stamp n o).behind past := by
  cases n with
  | frame f =>
    simp only [hear, feed_behind, note_behind]
    split <;> rw [take_behind]
  | opened | failed | closed => exact take_behind r _ _

theorem step_behind (r : Run) (a : Answers) (m : Move) :
    (r.behind past).step a m = (r.step a m).behind past := by
  cases m with
  | connect | disconnect | reconnect =>
    simp only [step, take_behind, feed_behind, ledger_behind, ifAlive_behind]
  | keepalive =>
    simp only [step, give_behind, note_behind, feed_behind, ledger_behind, ifAlive_behind]
  | refresh => simp only [step, give_behind, feed_behind, ifAlive_behind]
  | setPolls polls => exact ifAlive_behind r { r with feed := { r.feed with polls } }
  | retire =>
    simp only [step]
    rw [← ifAlive_behind, ← take_behind]
    rfl
  | notice i n =>
    simp only [step, ledger_behind]
    split
    · rfl
    · exact hear_behind r i _ n _
  | advance target =>
    simp only [step, ledger_behind]
    split
    · rfl
    · exact take_behind { r with ledger := { r.ledger with clock := _ } } _ _
  | answer q answer =>
    simp only [step, ledger_behind]
    split
    · rfl
    · exact take_behind r _ _
  | returned =>
    simp only [step, stack_behind]
    split
    · rfl
    · exact take_behind { r with stack := _ } _ _

theorem play_behind (r : Run) (moves : List (Answers × Move)) :
    (r.behind past).play moves = (r.play moves).behind past := by
  induction moves generalizing r with
  | nil => rfl
  | cons x moves ih => rw [play_cons, step_behind, ih, play_cons]

/-- What the run records when it makes a move. -/
def news (r : Run) (a : Answers) (m : Move) : List Record :=
  ({ r with records := [] }.step a m).records

theorem records_step (r : Run) (a : Answers) (m : Move) :
    (r.step a m).records = r.records ++ r.news a m := by
  have h := congrArg Run.records
    (@step_behind r.records { r with records := [] } a m)
  simpa [behind, news] using h

end Run

end ProgressFeed.Feed

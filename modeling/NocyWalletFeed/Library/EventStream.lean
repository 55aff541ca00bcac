import Mathlib.Data.List.Basic

/-!
# Event streams

The text of a stream of server-sent events: lines of fields, with a blank line at the end of each event.

* `Frame.write` : the text of an event or a comment;
* `Reader.step`, `read` : a reader that takes the text character by character;
* `read_write` : what is written reads back; `read_prefix` : a stream cut off anywhere gives its first events.
-/

namespace EventStream

/-- An event as its reader is handed it: its type and its data. -/
structure Message where
  event : List Char
  data : List Char

inductive Frame where
  | event (message : Message)
  | comment (text : List Char)

def Frame.messages : Frame → List Message
  | .event message => [message]
  | .comment _ => []

def eventField : List Char := "event".toList
def dataField : List Char := "data".toList

def writeLine (name value : List Char) : List Char := name ++ ':' :: ' ' :: (value ++ ['\n'])

def Frame.write : Frame → List Char
  | .event message => writeLine eventField message.event ++ (writeLine dataField message.data ++ ['\n'])
  | .comment text => ':' :: text ++ ['\n'] ++ ['\n']

/-- No line ends inside. -/
def OneLine (text : List Char) : Prop := ∀ c ∈ text, c ≠ '\n' ∧ c ≠ '\r'

/-- Every part of a frame is on one line, and an event has a type. -/
def Frame.Clean : Frame → Prop
  | .event message => message.event ≠ [] ∧ OneLine message.event ∧ OneLine message.data
  | .comment text => OneLine text

/-! ## Reading -/

/-- A reader: the line it is on, whether the character before was a carriage return, the type and the data lines of
the event it is in, and the events so far. -/
structure Reader where
  line : List Char
  afterReturn : Bool
  event : List Char
  data : List (List Char)
  messages : List Message

def Reader.idle (messages : List Message) : Reader := ⟨[], false, [], [], messages⟩

/-- The field and the value of a line, without one space after the colon. -/
def splitField (line : List Char) : List Char × List Char :=
  (line.takeWhile (· != ':'),
    match line.dropWhile (· != ':') with
    | _ :: ' ' :: value => value
    | _ :: value => value
    | [] => [])

namespace Reader

/-- A line that is not blank; other fields and comments are passed over. -/
def readField (r : Reader) (field : List Char × List Char) : Reader :=
  if field.1 = eventField then { r with event := field.2 }
  else if field.1 = dataField then { r with data := r.data ++ [field.2] }
  else r

/-- A blank line: the event so far, if it has data. -/
def dispatch (r : Reader) : Reader :=
  if r.data = [] then { r with event := [] }
  else
    { r with
      event := []
      data := []
      messages := r.messages ++
        [⟨if r.event = [] then "message".toList else r.event, ['\n'].intercalate r.data⟩] }

def endLine (r : Reader) : Reader :=
  if r.line = [] then r.dispatch else { r.readField (splitField r.line) with line := [] }

/-- One character: a line ends with a line feed, a carriage return or the two. -/
def step (r : Reader) (c : Char) : Reader :=
  if c = '\n' then if r.afterReturn then { r with afterReturn := false } else r.endLine
  else if c = '\r' then { r.endLine with afterReturn := true }
  else { r with line := r.line ++ [c], afterReturn := false }

end Reader

/-- The events of a text; one that is not ended is dropped. -/
def read (text : List Char) : List Message := (text.foldl Reader.step (.idle [])).messages

/-! ## What is written reads back -/

theorem oneLine_of_all {text : List Char} (h : (text.all fun c => c != '\n' && c != '\r') = true) : OneLine text := by
  intro c hc
  have hboth := Bool.and_eq_true_iff.mp (List.all_eq_true.mp h c hc)
  exact ⟨bne_iff_ne.mp hboth.1, bne_iff_ne.mp hboth.2⟩

theorem oneLine_cons {c : Char} {text : List Char} (h : OneLine (c :: text)) :
    c ≠ '\n' ∧ c ≠ '\r' ∧ OneLine text :=
  ⟨(h c List.mem_cons_self).1, (h c List.mem_cons_self).2, fun d hd => h d (List.mem_cons_of_mem _ hd)⟩

theorem oneLine_writeLine {name value : List Char} (hname : OneLine name) (hvalue : OneLine value) :
    OneLine (name ++ ':' :: ' ' :: value) := by
  intro c hc
  rcases List.mem_append.mp hc with hc | hc
  · exact hname c hc
  rcases List.mem_cons.mp hc with rfl | hc
  · decide
  rcases List.mem_cons.mp hc with rfl | hc
  · decide
  · exact hvalue c hc

theorem foldl_step_oneLine (r : Reader) (hr : r.afterReturn = false) {text : List Char} (h : OneLine text) :
    text.foldl Reader.step r = { r with line := r.line ++ text } := by
  induction text generalizing r with
  | nil => rw [List.foldl_nil, List.append_nil]
  | cons c text ih =>
    obtain ⟨hfeed, hreturn, htext⟩ := oneLine_cons h
    have hstep : r.step c = { r with line := r.line ++ [c] } := by
      rw [Reader.step, if_neg hfeed, if_neg hreturn, ← hr]
    have hrest := ih { r with line := r.line ++ [c] } hr htext
    rw [List.append_assoc, List.singleton_append] at hrest
    rw [List.foldl_cons, hstep, hrest]

theorem foldl_step_line (r : Reader) (hr : r.afterReturn = false) (hline : r.line = []) {text : List Char}
    (h : OneLine text) (hne : text ≠ []) :
    (text ++ ['\n']).foldl Reader.step r = r.readField (splitField text) := by
  rw [List.foldl_append, foldl_step_oneLine r hr h, hline, List.nil_append]
  show Reader.step { r with line := text } '\n' = _
  rw [Reader.step, if_pos rfl, if_neg (by rw [hr]; exact Bool.false_ne_true), Reader.endLine, if_neg hne]
  unfold Reader.readField
  dsimp only
  split_ifs <;> simp only [← hline]

theorem splitField_writeLine {name : List Char} (hname : ':' ∉ name) (value : List Char) :
    splitField (name ++ ':' :: ' ' :: value) = (name, value) := by
  have hall : ∀ c ∈ name, (c != ':') = true := fun c hc => bne_iff_ne.mpr fun h => hname (h ▸ hc)
  rw [splitField, List.takeWhile_append_of_pos hall, List.dropWhile_append_of_pos hall]
  simp

theorem foldl_step_writeLine (r : Reader) (hr : r.afterReturn = false) (hline : r.line = []) {name value : List Char}
    (hname : OneLine name) (hcolon : ':' ∉ name) (hvalue : OneLine value) :
    (writeLine name value).foldl Reader.step r = r.readField (name, value) := by
  have h := foldl_step_line r hr hline (oneLine_writeLine hname hvalue) (by simp)
  rw [splitField_writeLine hcolon] at h
  rw [← h, writeLine, List.append_assoc, List.cons_append, List.cons_append]

theorem foldl_step_blank (r : Reader) (hr : r.afterReturn = false) (hline : r.line = []) :
    ['\n'].foldl Reader.step r = r.dispatch := by
  show r.step '\n' = _
  rw [Reader.step, if_pos rfl, if_neg (by rw [hr]; exact Bool.false_ne_true), Reader.endLine, if_pos hline]

/-- **Frames.** A reader between two events reads a frame. -/
theorem foldl_step_frame (messages : List Message) {frame : Frame} (h : frame.Clean) :
    frame.write.foldl Reader.step (.idle messages) = .idle (messages ++ frame.messages) := by
  cases frame with
  | event message =>
    obtain ⟨hne, hevent, hdata⟩ := h
    have heventField : OneLine eventField := oneLine_of_all (by decide)
    have hdataField : OneLine dataField := oneLine_of_all (by decide)
    rw [Frame.write, List.foldl_append, List.foldl_append,
      foldl_step_writeLine _ rfl rfl heventField (by decide) hevent]
    show ['\n'].foldl Reader.step
      ((writeLine dataField message.data).foldl Reader.step ⟨[], false, message.event, [], messages⟩) = _
    rw [foldl_step_writeLine _ rfl rfl hdataField (by decide) hdata]
    show ['\n'].foldl Reader.step ⟨[], false, message.event, [message.data], messages⟩ = _
    rw [foldl_step_blank _ rfl rfl]
    show (⟨[], false, [], [], messages ++ [⟨if message.event = [] then _ else message.event, _⟩]⟩ : Reader) = _
    rw [if_neg hne, show ['\n'].intercalate [message.data] = message.data by simp [List.intercalate]]
    rfl
  | comment text =>
    have hline : OneLine (':' :: text) := fun c hc => (List.mem_cons.mp hc).elim (fun heq => heq ▸ by decide) (h c)
    have hfield : (splitField (':' :: text)).1 = [] := rfl
    have hskip : (Reader.idle messages).readField (splitField (':' :: text)) = .idle messages := by
      rw [Reader.readField, hfield, if_neg (by decide), if_neg (by decide)]
    rw [Frame.write, List.foldl_append, foldl_step_line _ rfl rfl hline (List.cons_ne_nil _ _), hskip,
      foldl_step_blank _ rfl rfl, Frame.messages, List.append_nil]
    rfl

/-- **Streams.** What is written reads back. -/
theorem read_write {frames : List Frame} (h : ∀ frame ∈ frames, frame.Clean) :
    read (frames.flatMap Frame.write) = frames.flatMap Frame.messages := by
  have hrun : ∀ messages, (frames.flatMap Frame.write).foldl Reader.step (.idle messages) =
      .idle (messages ++ frames.flatMap Frame.messages) := by
    induction frames with
    | nil => exact fun messages => by rw [List.flatMap_nil, List.flatMap_nil, List.foldl_nil, List.append_nil]
    | cons frame frames ih =>
      intro messages
      rw [List.flatMap_cons, List.foldl_append, foldl_step_frame messages (h frame List.mem_cons_self),
        ih (fun frame hf => h frame (List.mem_cons_of_mem _ hf)), List.flatMap_cons, List.append_assoc]
  rw [read, hrun []]
  rfl

/-! ## A stream that is cut off -/

theorem messages_dispatch (r : Reader) : r.messages <+: r.dispatch.messages := by
  unfold Reader.dispatch
  split_ifs
  · exact List.prefix_rfl
  · exact List.prefix_append _ _
  · exact List.prefix_append _ _

theorem messages_endLine (r : Reader) : r.messages <+: r.endLine.messages := by
  unfold Reader.endLine
  split_ifs
  · exact messages_dispatch r
  · unfold Reader.readField
    split_ifs <;> exact List.prefix_rfl

theorem messages_step (r : Reader) (c : Char) : r.messages <+: (r.step c).messages := by
  unfold Reader.step
  split_ifs
  · exact List.prefix_rfl
  · exact messages_endLine r
  · exact messages_endLine r
  · exact List.prefix_rfl

theorem messages_foldl (text : List Char) (r : Reader) : r.messages <+: (text.foldl Reader.step r).messages := by
  induction text generalizing r with
  | nil => exact List.prefix_rfl
  | cons c text ih => exact (messages_step r c).trans (ih (r.step c))

/-- **Cut streams.** A text cut off anywhere gives the first of its events, each of them whole. -/
theorem read_prefix {cut text : List Char} (h : cut <+: text) : read cut <+: read text := by
  obtain ⟨rest, rfl⟩ := h
  rw [read, read, List.foldl_append]
  exact messages_foldl rest _

end EventStream

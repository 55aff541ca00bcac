import NocyWalletFeed.Routes.Subscribe
import NocyWalletFeed.Wire
import NocyWalletFeed.Library.EventStream

/-!
# The event stream on the wire (`routes/subscribe.rs`)

* `SseEvent.toJson`, `SseEvent.message` : an event as it is handed to the client;
* `bodyText` : the body of the response, keep-alive comments included;
* `read_bodyText`, `read_cut_bodyText` : a reader of the body gets the events in order, and of a body that is cut off
  anywhere it gets the first of them, each of them whole;
* `messages_eq_iff` : the messages tell the events apart.
-/

namespace NocyWalletFeed
open Json EventStream

section Events
variable (jsonb : JsonText → Value)

/-- The type and the data of an event. A heartbeat's field is not renamed: `rename_all` on an enumeration is for its
variants. -/
def SseEvent.tagged : SseEvent → String × Value
  | .block bundle => ("block", bundle.toJson jsonb)
  | .heartbeat watermarks currentHeight =>
    ("heartbeat", .obj [("watermarks", watermarks.toJson), ("current_height", .str currentHeight)])
  | .control event => ("control", event.toJson)

def SseEvent.toJson (event : SseEvent) : Value := .obj (taggedMembers (event.tagged jsonb))

/-- The event of `send_event`: its type is the tag of its data. -/
def SseEvent.message (event : SseEvent) : EventStream.Message :=
  ⟨(event.tagged jsonb).1.toList, (event.toJson jsonb).render⟩

/-- What a reader gets of an event. -/
def SseEvent.canonical : SseEvent → SseEvent
  | .block bundle => .block (bundle.canonical jsonb)
  | .heartbeat watermarks currentHeight => .heartbeat watermarks currentHeight
  | .control event => .control event

end Events

/-! ## The body -/

/-- What the body of the response is made of: the events of the stream, and comments while there are none. -/
inductive BodyPart where
  | event (event : SseEvent)
  | keepAlive

namespace BodyPart

def sseEvent : BodyPart → List SseEvent
  | .event e => [e]
  | .keepAlive => []

/-- A keep-alive is an empty comment. -/
def frame (jsonb : JsonText → Value) : BodyPart → Frame
  | .event e => .event (e.message jsonb)
  | .keepAlive => .comment []

end BodyPart

def bodyEvents (parts : List BodyPart) : List SseEvent := parts.flatMap BodyPart.sseEvent

def bodyText (jsonb : JsonText → Value) (parts : List BodyPart) : List Char :=
  parts.flatMap fun part => (part.frame jsonb).write

section Body
variable (jsonb : JsonText → Value)

theorem oneLine_render (value : Value) : OneLine value.render := by
  intro c hc
  have hprintable : 32 ≤ c.toNat := printable_render value c hc
  refine ⟨?_, ?_⟩ <;>
  · rintro rfl
    exact absurd hprintable (by decide)

theorem eventType_mem (event : SseEvent) : (event.tagged jsonb).1 ∈ ["block", "heartbeat", "control"] := by
  cases event <;> simp [SseEvent.tagged]

theorem message_clean (event : SseEvent) : (Frame.event (event.message jsonb)).Clean := by
  have htypes : ∀ eventType ∈ ["block", "heartbeat", "control"],
      eventType.toList ≠ [] ∧ (eventType.toList.all fun c => c != '\n' && c != '\r') = true := by decide
  obtain ⟨hne, hline⟩ := htypes _ (eventType_mem jsonb event)
  exact ⟨hne, oneLine_of_all hline, oneLine_render _⟩

theorem frame_clean (part : BodyPart) : (part.frame jsonb).Clean := by
  cases part with
  | event event => exact message_clean jsonb event
  | keepAlive => exact fun c hc => nomatch hc

theorem frame_messages (part : BodyPart) :
    (part.frame jsonb).messages = part.sseEvent.map (SseEvent.message jsonb) := by
  cases part <;> rfl

theorem frames_messages (parts : List BodyPart) :
    (parts.map (BodyPart.frame jsonb)).flatMap Frame.messages = (bodyEvents parts).map (SseEvent.message jsonb) := by
  rw [List.flatMap_map, bodyEvents, List.map_flatMap]
  exact List.flatMap_congr fun part _ => frame_messages jsonb part

theorem bodyText_eq (parts : List BodyPart) :
    bodyText jsonb parts = (parts.map (BodyPart.frame jsonb)).flatMap Frame.write := by
  rw [bodyText, List.flatMap_map]

theorem frames_clean (parts : List BodyPart) : ∀ frame ∈ parts.map (BodyPart.frame jsonb), frame.Clean := by
  intro frame h
  obtain ⟨part, -, rfl⟩ := List.mem_map.mp h
  exact frame_clean jsonb part

theorem read_bodyText (parts : List BodyPart) :
    read (bodyText jsonb parts) = (bodyEvents parts).map (SseEvent.message jsonb) := by
  rw [bodyText_eq, read_write (frames_clean jsonb parts), frames_messages]

/-- A reader of a body that is cut off anywhere gets its first events. -/
theorem read_cut_bodyText {parts : List BodyPart} {cut : List Char} (hcut : cut <+: bodyText jsonb parts) :
    ∃ events, events <+: bodyEvents parts ∧ read cut = events.map (SseEvent.message jsonb) := by
  have hread := read_prefix hcut
  rw [read_bodyText] at hread
  obtain ⟨events, hinit, hevents⟩ := List.prefix_map_iff.mp hread
  exact ⟨events, hinit, hevents⟩

theorem sseEvent_tagged_eq_iff (event event' : SseEvent) :
    event.tagged jsonb = event'.tagged jsonb ↔ event.canonical jsonb = event'.canonical jsonb := by
  cases event <;> cases event' <;> simp [SseEvent.tagged, SseEvent.canonical, blockBundle_toJson_eq_iff]

theorem message_eq_iff (event event' : SseEvent) :
    event.message jsonb = event'.message jsonb ↔ event.canonical jsonb = event'.canonical jsonb := by
  rw [← sseEvent_tagged_eq_iff]
  constructor
  · intro h
    have hjson : event.toJson jsonb = event'.toJson jsonb := render_injective (EventStream.Message.mk.inj h).2
    simpa [SseEvent.toJson, taggedMembers, Prod.ext_iff] using hjson
  · intro h
    rw [SseEvent.message, SseEvent.message, SseEvent.toJson, SseEvent.toJson, h]

/-- **Messages tell events apart**, up to what a reader gets of a transaction result. -/
theorem messages_eq_iff {events events' : List SseEvent} :
    events.map (SseEvent.message jsonb) = events'.map (SseEvent.message jsonb) ↔
      events.map (SseEvent.canonical jsonb) = events'.map (SseEvent.canonical jsonb) :=
  map_eq_map_iff_map_eq_map (message_eq_iff jsonb)

end Body

/-! ## Items and numbers -/

def sentEvents (actions : List StreamAction) : List SseEvent := actions.filterMap fun
  | .sent event => some event
  | .skipped _ => none

def SseEvent.items : SseEvent → List OrderedFeedItem
  | .block bundle => bundle.items
  | .heartbeat _ _ => []
  | .control _ => []

def SseEvent.results (event : SseEvent) : List JsonText := event.items.flatMap (·.item.results)

theorem numbers_sseEvent (jsonb : JsonText → Value) (event : SseEvent) :
    (event.toJson jsonb).numbers = event.items.flatMap fun o => o.item.numbers jsonb := by
  cases event with
  | block bundle => simp [SseEvent.toJson, SseEvent.tagged, taggedMembers, SseEvent.items, numbers_blockBundle]
  | heartbeat watermarks currentHeight => simp [SseEvent.toJson, SseEvent.tagged, taggedMembers, SseEvent.items]
  | control event => simp [SseEvent.toJson, SseEvent.tagged, taggedMembers, SseEvent.items]

end NocyWalletFeed

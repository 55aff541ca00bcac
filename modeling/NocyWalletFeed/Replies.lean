import NocyWalletFeed.Wire

/-!
# Replies (`error.rs`)

A handler returns a body or an `AppError`, and the reply carries the JSON of the one or the structured error of the
other.

* `AppError.intoResponse`, `reply` : the status and the text of the body;
* `reply_eq_iff`, `feedReply_eq_iff` : the reply of `get_feed` says all that the handler returned, errors included.
-/

namespace NocyWalletFeed
open Json

/-- Application error codes for structured error responses. -/
inductive ErrorCode where
  | badRequest
  | notFound
  | upstreamError
  | internalError
  | serviceUnavailable
  deriving DecidableEq, Repr

def ErrorCode.toJson : ErrorCode → Value
  | .badRequest => .str "BAD_REQUEST"
  | .notFound => .str "NOT_FOUND"
  | .upstreamError => .str "UPSTREAM_ERROR"
  | .internalError => .str "INTERNAL_ERROR"
  | .serviceUnavailable => .str "SERVICE_UNAVAILABLE"

structure ErrorResponse where
  error : ErrorCode
  message : String
  details : Option String
  deriving DecidableEq, Repr

def ErrorResponse.toJson (body : ErrorResponse) : Value := .obj
  ([("error", body.error.toJson), ("message", .str body.message)] ++ optionMember "details" .str body.details)

namespace AppError

def message : AppError → String
  | .badRequest message => message
  | .notFound message => message
  | .upstreamError message => message
  | .internalError message => message
  | .serviceUnavailable message => message

def errorCode : AppError → ErrorCode
  | .badRequest _ => .badRequest
  | .notFound _ => .notFound
  | .upstreamError _ => .upstreamError
  | .internalError _ => .internalError
  | .serviceUnavailable _ => .serviceUnavailable

def statusCode : AppError → Nat
  | .badRequest _ => 400
  | .notFound _ => 404
  | .upstreamError _ => 502
  | .internalError _ => 500
  | .serviceUnavailable _ => 503

def label : AppError → String
  | .badRequest _ => "Bad request: "
  | .notFound _ => "Not found: "
  | .upstreamError _ => "Upstream error: "
  | .internalError _ => "Internal error: "
  | .serviceUnavailable _ => "Service unavailable: "

def display (error : AppError) : String := error.label ++ error.message

end AppError

structure Reply where
  status : Nat
  body : List Char
  deriving DecidableEq

def AppError.intoResponse (error : AppError) : Reply :=
  ⟨error.statusCode, (ErrorResponse.mk error.errorCode error.display none).toJson.render⟩

def reply {α : Type} (toJson : α → Value) : Except AppError α → Reply
  | .ok body => ⟨200, (toJson body).render⟩
  | .error error => error.intoResponse

/-! ## Replies apart -/

theorem ErrorCode.toJson_injective : Function.Injective ErrorCode.toJson := by
  intro code code' h
  cases code <;> cases code' <;> first | rfl | exact absurd (Value.str.inj h) (by decide)

theorem ErrorResponse.toJson_injective : Function.Injective ErrorResponse.toJson := by
  intro body body' h
  cases body
  cases body'
  simpa [ErrorResponse.toJson, ErrorCode.toJson_injective.eq_iff] using h

theorem AppError.eq_of_code_message {error error' : AppError} (hcode : error.errorCode = error'.errorCode)
    (hmessage : error.message = error'.message) : error = error' := by
  cases error <;> cases error' <;> first | exact congrArg _ hmessage | cases hcode

theorem AppError.label_eq {error error' : AppError} (h : error.errorCode = error'.errorCode) :
    error.label = error'.label := by
  cases error <;> cases error' <;> first | rfl | cases h

theorem AppError.intoResponse_injective : Function.Injective AppError.intoResponse := by
  intro error error' h
  obtain ⟨hcode, hdisplay, -⟩ := ErrorResponse.mk.inj (ErrorResponse.toJson_injective
    (render_injective (Reply.mk.inj h).2))
  refine AppError.eq_of_code_message hcode ?_
  rw [display, display, AppError.label_eq hcode] at hdisplay
  exact String.append_right_inj _ |>.mp hdisplay

theorem AppError.statusCode_ne (error : AppError) : error.statusCode ≠ 200 := by
  cases error <;> simp [statusCode]

theorem reply_eq_iff {α β : Type} {toJson : α → Value} {canonical : α → β}
    (h : ∀ a a', toJson a = toJson a' ↔ canonical a = canonical a') (result result' : Except AppError α) :
    reply toJson result = reply toJson result' ↔ result.map canonical = result'.map canonical := by
  cases result with
  | ok body =>
    cases result' with
    | ok body' =>
      have htext : reply toJson (.ok body) = reply toJson (.ok body') ↔ toJson body = toJson body' :=
        ⟨fun h => render_injective (Reply.mk.inj h).2, fun h => by rw [reply, reply, h]⟩
      rw [htext, h]
      exact ⟨congrArg Except.ok, Except.ok.inj⟩
    | error error' => exact ⟨fun h => absurd (Reply.mk.inj h).1.symm error'.statusCode_ne, nofun⟩
  | error error =>
    cases result' with
    | ok body' => exact ⟨fun h => absurd (Reply.mk.inj h).1 error.statusCode_ne, nofun⟩
    | error error' =>
      exact ⟨fun h => congrArg Except.error (AppError.intoResponse_injective h),
        fun h => congrArg AppError.intoResponse (Except.error.inj h)⟩

/-- **The reply of `get_feed`** says all that the handler returned: two replies have the same status and body exactly
when they stand for the same error with the same message, or for responses that are the same up to the spelling of their
transaction results. -/
theorem feedReply_eq_iff (jsonb : JsonText → Value) (result result' : Except AppError FeedResponse) :
    reply (FeedResponse.toJson jsonb) result = reply (FeedResponse.toJson jsonb) result' ↔
      result.map (FeedResponse.canonical jsonb) = result'.map (FeedResponse.canonical jsonb) :=
  reply_eq_iff (feedResponse_toJson_eq_iff jsonb) result result'

end NocyWalletFeed

import Nastd.Nastipc

/-!
# Response frames

`arr_send_response` of `server/nastdio.c`: the one place where responses are put
together. `arrSendResponse_eq` says what a frame is, and when there is none: the items
with their separators have to fit 1024 bytes with the header, or nothing is sent.
-/

namespace Nastd.Server

/-- The item loop of `arr_send_response`, over what `buffer` holds so far. A separator
behind a full buffer lands one byte past its end, but the next item is then refused. -/
def addItems : Bytes → List Bytes → Option Bytes
  | buffer, [] => some buffer
  | buffer, s :: rest =>
    if buffer.length + s.length > 1024 then none
    else addItems (if rest = [] then buffer ++ s else buffer ++ s ++ [NASTSEP]) rest

/-- `arr_send_response`: the frame it writes; `none` when it returns -1. -/
def arrSendResponse (reqid : UInt16) (rCode : Byte) (aa : List Bytes) : Option Bytes :=
  (addItems ([0, 0] ++ htons reqid ++ [rCode]) aa).map fun buffer =>
    htons (UInt16.ofNat buffer.length) ++ buffer.drop 2

/-- The bytes of the items with a separator between each two. -/
def joinItems (aa : List Bytes) : Bytes := [NASTSEP].intercalate aa

@[simp] theorem joinItems_nil : joinItems [] = [] := rfl

@[simp] theorem joinItems_single (s : Bytes) : joinItems [s] = s := by
  simp [joinItems]

theorem joinItems_cons (s t : Bytes) (rest : List Bytes) :
    joinItems (s :: t :: rest) = s ++ [NASTSEP] ++ joinItems (t :: rest) := by
  simp [joinItems, List.intercalate]

/-- The loop joins the items, if they fit. -/
theorem addItems_eq :
    ∀ {aa : List Bytes} {buffer : Bytes}, buffer.length ≤ 1024 →
      addItems buffer aa
        = if buffer.length + (joinItems aa).length ≤ 1024 then some (buffer ++ joinItems aa)
          else none := by
  intro aa
  induction aa with
  | nil =>
    intro buffer h
    rw [addItems, joinItems_nil, List.append_nil, List.length_nil, if_pos (by omega)]
  | cons s rest ih =>
    intro buffer h
    rw [addItems]
    cases rest with
    | nil =>
      rw [joinItems_single]
      by_cases hfit : buffer.length + s.length ≤ 1024
      · rw [if_neg (by omega), if_pos hfit]
        rfl
      · rw [if_pos (by omega), if_neg hfit]
    | cons t rest =>
      have hlen : (joinItems (s :: t :: rest)).length
          = s.length + 1 + (joinItems (t :: rest)).length := by
        rw [joinItems_cons]
        simp only [List.length_append, List.length_singleton]
      by_cases hfit : buffer.length + s.length > 1024
      · rw [if_pos hfit, if_neg (by omega)]
      · rw [if_neg hfit, if_neg (List.cons_ne_nil t rest)]
        have hbuf : (buffer ++ s ++ [NASTSEP]).length = buffer.length + s.length + 1 := by
          simp only [List.length_append, List.length_singleton]
        by_cases hfull : buffer.length + s.length = 1024
        · -- the buffer is full: the separator went past it and the next item is refused
          rw [addItems, if_pos (by omega), if_neg (by omega)]
        · rw [ih (by omega), hbuf]
          by_cases hall : buffer.length + (joinItems (s :: t :: rest)).length ≤ 1024
          · rw [if_pos (by omega), if_pos hall, joinItems_cons]
            simp
          · rw [if_neg (by omega), if_neg hall]

/-- The response with these items fits the server's buffer. -/
def Fits (aa : List Bytes) : Prop := 5 + (joinItems aa).length ≤ 1024

instance (aa : List Bytes) : Decidable (Fits aa) := inferInstanceAs (Decidable (_ ≤ _))

/-- The frame of a response that fits. -/
def responseFrame (reqid : UInt16) (rCode : Byte) (aa : List Bytes) : Bytes :=
  htons (UInt16.ofNat (5 + (joinItems aa).length)) ++ htons reqid ++ [rCode] ++ joinItems aa

theorem arrSendResponse_eq (reqid : UInt16) (rCode : Byte) (aa : List Bytes) :
    arrSendResponse reqid rCode aa
      = if Fits aa then some (responseFrame reqid rCode aa) else none := by
  have hhead : ([0, 0] ++ htons reqid ++ [rCode] : Bytes).length = 5 := rfl
  unfold arrSendResponse
  rw [addItems_eq (by rw [hhead]; omega), hhead]
  by_cases hfit : Fits aa
  · have hle : 5 + (joinItems aa).length ≤ 1024 := hfit
    rw [if_pos hle, if_pos hfit, Option.map_some, List.length_append, hhead]
    rfl
  · have hgt : ¬ 5 + (joinItems aa).length ≤ 1024 := hfit
    rw [if_neg hgt, if_neg hfit]
    rfl

/-- The request id a frame carries: its second `short`. -/
def frameId (frame : Bytes) : UInt16 := ntohs (frame.getD 2 0) (frame.getD 3 0)

/-- A response carries the id it was given. -/
theorem frameId_responseFrame (reqid : UInt16) (rCode : Byte) (aa : List Bytes) :
    frameId (responseFrame reqid rCode aa) = reqid :=
  ntohs_htons reqid

end Nastd.Server

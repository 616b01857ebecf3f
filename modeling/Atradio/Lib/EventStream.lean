import Atradio.Lib.Run

/-! # The text of an event stream

The parser of `text/event-stream` as a machine on characters, so that it does not matter where the
network cuts the text. A line ends with a line feed, a carriage return, or both. -/

namespace Atradio.Lib.EventStream

structure Message where
  type : List Char
  data : List Char
  id : List Char
deriving DecidableEq

structure Parser where
  line : List Char := []
  /-- The last character was a carriage return: a line feed that follows ends no second line. -/
  returned : Bool := false
  data : List Char := []
  event : List Char := []
  id : List Char := []
  messages : List Message := []
deriving DecidableEq

def Parser.dispatch (p : Parser) : Parser :=
  if p.data = [] then { p with event := [] }
  else
    { p with
      data := []
      event := []
      messages := p.messages ++
        [⟨if p.event = [] then "message".toList else p.event, p.data.dropLast, p.id⟩] }

/-- The field `retry` only sets a delay. -/
def Parser.field (p : Parser) (name value : List Char) : Parser :=
  if name = "event".toList then { p with event := value }
  else if name = "data".toList then { p with data := p.data ++ value ++ ['\n'] }
  else if name = "id".toList then if '\x00' ∈ value then p else { p with id := value }
  else p

/-- What follows the colon, without one space in front. -/
def fieldValue : List Char → List Char
  | ':' :: ' ' :: value => value
  | ':' :: value => value
  | _ => []

def Parser.endLine (p : Parser) : Parser :=
  match p.line with
  | [] => p.dispatch
  | ':' :: _ => { p with line := [] }
  | c :: rest => { p with line := [] }.field ((c :: rest).takeWhile (· ≠ ':'))
      (fieldValue ((c :: rest).dropWhile (· ≠ ':')))

def Parser.char (p : Parser) (c : Char) : Parser :=
  if c = '\n' then if p.returned then { p with returned := false } else p.endLine
  else if c = '\r' then { p.endLine with returned := true }
  else { p with line := p.line ++ [c], returned := false }

def OneLine (l : List Char) : Prop := '\n' ∉ l ∧ '\r' ∉ l

instance (l : List Char) : Decidable (OneLine l) := inferInstanceAs (Decidable (_ ∧ _))

theorem run_oneLine (p : Parser) (hp : p.returned = false) {l : List Char} (hl : OneLine l) :
    run Parser.char p l = { p with line := p.line ++ l } := by
  induction l generalizing p with
  | nil => rw [List.append_nil, run_nil]
  | cons c l ih =>
    obtain ⟨hn, hr⟩ := hl
    have hcn : c ≠ '\n' := fun h => hn (h ▸ List.mem_cons_self ..)
    have hcr : c ≠ '\r' := fun h => hr (h ▸ List.mem_cons_self ..)
    have hc : p.char c = { p with line := p.line ++ [c], returned := false } := by
      rw [Parser.char, if_neg hcn, if_neg hcr]
    rw [run_cons, hc, ih _ rfl ⟨fun h => hn (List.mem_cons_of_mem _ h),
      fun h => hr (List.mem_cons_of_mem _ h)⟩]
    simp [hp]

/-- The parser is between two messages. -/
structure Parser.Idle (p : Parser) : Prop where
  line : p.line = []
  returned : p.returned = false
  data : p.data = []
  event : p.event = []

theorem Parser.Idle.init : ({} : Parser).Idle := ⟨rfl, rfl, rfl, rfl⟩

theorem Parser.Idle.dispatch {p : Parser} (hp : p.Idle) : p.char '\n' = p := by
  rw [Parser.char, if_pos rfl, hp.returned, if_neg Bool.false_ne_true, Parser.endLine, hp.line]
  obtain ⟨line, returned, data, event, id, messages⟩ := p
  obtain ⟨rfl, rfl, rfl, rfl⟩ := hp
  rfl

theorem Parser.Idle.line_feed {p : Parser} (hp : p.Idle) {l : List Char} (hl : OneLine l) :
    run Parser.char p (l ++ ['\n']) = { p with line := l }.endLine := by
  rw [run_append, run_oneLine p hp.returned hl, hp.line, List.nil_append, run_cons, run_nil,
    Parser.char, if_pos rfl]
  exact if_neg (by rw [hp.returned]; exact Bool.false_ne_true)

/-- A block of a stream: a comment, or the data of one message. -/
inductive Block where
  | comment (text : List Char)
  | data (text : List Char)
deriving DecidableEq

def Block.text : Block → List Char
  | .comment t => ':' :: t ++ ['\n', '\n']
  | .data t => "data: ".toList ++ t ++ ['\n', '\n']

def Block.OneLine : Block → Prop
  | .comment t | .data t => EventStream.OneLine t

def Block.message : Block → Option (List Char)
  | .comment _ => none
  | .data t => some t

theorem oneLine_append {l l' : List Char} (hl : OneLine l) (hl' : OneLine l') :
    OneLine (l ++ l') := by
  simp only [OneLine, List.mem_append, not_or]
  exact ⟨⟨hl.1, hl'.1⟩, hl.2, hl'.2⟩

theorem endLine_comment (p : Parser) (t : List Char) :
    { p with line := ':' :: t }.endLine = { p with line := [] } := rfl

theorem endLine_data (p : Parser) (t : List Char) :
    { p with line := "data: ".toList ++ t }.endLine =
      { p with line := [], data := p.data ++ t ++ ['\n'] } := rfl

theorem Parser.Idle.comment {p : Parser} (hp : p.Idle) {t : List Char} (ht : OneLine t) :
    run Parser.char p (Block.text (.comment t)) = p := by
  have hline : OneLine (':' :: t) := oneLine_append (l := [':']) (by decide) ht
  have hsplit : Block.text (.comment t) = (':' :: t ++ ['\n']) ++ ['\n'] :=
    (List.append_assoc (':' :: t) ['\n'] ['\n']).symm
  rw [hsplit, run_append, hp.line_feed hline, endLine_comment]
  have hsame : { p with line := [] } = p := by
    obtain ⟨line, returned, data, event, id, messages⟩ := p
    obtain ⟨rfl, -, -, -⟩ := hp
    rfl
  rw [hsame, run_cons, run_nil, hp.dispatch]

theorem Parser.Idle.message {p : Parser} (hp : p.Idle) {t : List Char} (ht : OneLine t) :
    run Parser.char p (Block.text (.data t)) =
      { p with messages := p.messages ++ [⟨"message".toList, t, p.id⟩] } := by
  have hline : OneLine ("data: ".toList ++ t) := oneLine_append (by decide) ht
  have hsplit : Block.text (.data t) = ("data: ".toList ++ t ++ ['\n']) ++ ['\n'] :=
    (List.append_assoc ("data: ".toList ++ t) ['\n'] ['\n']).symm
  rw [hsplit, run_append, hp.line_feed hline, endLine_data, run_cons, run_nil]
  obtain ⟨line, returned, data, event, id, messages⟩ := p
  obtain ⟨rfl, rfl, rfl, rfl⟩ := hp
  simp [Parser.char, Parser.endLine, Parser.dispatch]

/-- The blocks of a stream are read as they were written: nothing is lost or joined, and a comment
is no message. -/
theorem messages_of_blocks {p : Parser} (hp : p.Idle) (bs : List Block)
    (hbs : ∀ b ∈ bs, b.OneLine) :
    run Parser.char p (bs.flatMap Block.text) =
      { p with messages := p.messages ++
          (bs.filterMap Block.message).map fun t => ⟨"message".toList, t, p.id⟩ } := by
  induction bs generalizing p with
  | nil => simp
  | cons b bs ih =>
    have hrest : ∀ b ∈ bs, b.OneLine := fun b hb => hbs b (List.mem_cons_of_mem _ hb)
    rw [List.flatMap_cons, run_append]
    cases b with
    | comment t =>
      have ht : EventStream.OneLine t := hbs (.comment t) (List.mem_cons_self ..)
      rw [hp.comment ht, ih hp hrest]
      rfl
    | data t =>
      have ht : EventStream.OneLine t := hbs (.data t) (List.mem_cons_self ..)
      have hidle : Parser.Idle
          { p with messages := p.messages ++ [⟨"message".toList, t, p.id⟩] } :=
        ⟨hp.line, hp.returned, hp.data, hp.event⟩
      have hmessage : (Block.data t :: bs).filterMap Block.message =
          t :: bs.filterMap Block.message := rfl
      rw [hp.message ht, ih hidle hrest, hmessage, List.map_cons, List.append_assoc,
        List.singleton_append]

theorem dispatch_messages (p : Parser) : p.messages <+: p.dispatch.messages := by
  rw [Parser.dispatch]
  split
  · exact List.prefix_refl _
  · exact List.prefix_append _ _

theorem field_messages (p : Parser) (name value : List Char) :
    (p.field name value).messages = p.messages := by
  simp only [Parser.field]
  split_ifs <;> rfl

theorem endLine_messages (p : Parser) : p.messages <+: p.endLine.messages := by
  rw [Parser.endLine]
  split
  · exact dispatch_messages p
  · exact List.prefix_refl _
  · simp only [field_messages, List.prefix_rfl]

theorem char_messages (p : Parser) (c : Char) : p.messages <+: (p.char c).messages := by
  simp only [Parser.char]
  split_ifs
  · exact List.prefix_refl _
  · exact endLine_messages p
  · exact endLine_messages p
  · exact List.prefix_refl _

/-- Text that follows takes no message back. -/
theorem run_messages (p : Parser) (l : List Char) :
    p.messages <+: (run Parser.char p l).messages := by
  induction l generalizing p with
  | nil => exact List.prefix_refl _
  | cons c l ih => exact (char_messages p c).trans (ih _)

end Atradio.Lib.EventStream

import WebhookEngine.Repositories

/-! What `DeliveryExecutorService.execute` makes of the answer to a request: the
status it reads from an error, whether it retries, and the write it decides on. -/

namespace WebhookEngine

/-- The fields of a thrown error the executor looks at. -/
structure SendError where
  responseStatus : Option Nat
  responseData : Option String
  status : Option Nat
  message : Option String
  deriving DecidableEq, Repr

inductive SendResult where
  | resolved (status : Nat) (data : String)
  | rejected (error : SendError)
  deriving DecidableEq, Repr

inductive OutcomeWrite where
  | success (statusCode : Nat) (responseSnippet : String)
  | deadLetter (statusCode : Nat) (responseSnippet : String)
  | retry (input : DeliveryFailureInput)
  deriving DecidableEq, Repr

/-! ### Redaction -/

def isJsSpace (c : Char) : Bool :=
  (9 ≤ c.toNat && c.toNat ≤ 13) || (0x2000 ≤ c.toNat && c.toNat ≤ 0x200a) ||
    [0x20, 0xa0, 0x1680, 0x2028, 0x2029, 0x202f, 0x205f, 0x3000, 0xfeff].contains c.toNat

def secretKeys : List (List Char) :=
  ["password", "secret", "token", "api_key", "api-key", "apikey", "authorization"].map String.toList

def matchKey (cs : List Char) : Option (List Char × List Char) :=
  secretKeys.findSome? fun key =>
    if (cs.take key.length).map Char.toLower = key then
      some (cs.take key.length, cs.drop key.length)
    else none

def takeQuote : List Char → List Char × List Char
  | '"' :: cs => (['"'], cs)
  | cs => ([], cs)

/-- A match of the redaction pattern at the head of the text: the text it keeps,
and what follows the value it hides. No alternative of the pattern can succeed
where the greedy reading fails, so there is nothing to backtrack to. -/
def matchSecret (cs : List Char) : Option (List Char × List Char) := do
  let (quote, cs) := takeQuote cs
  let (key, cs) ← matchKey cs
  let (quote', cs) := takeQuote cs
  let space := cs.takeWhile isJsSpace
  match cs.dropWhile isJsSpace with
  | [] => none
  | sep :: cs =>
    if sep = ':' ∨ sep = '=' then
      let space' := cs.takeWhile isJsSpace
      let hidden := fun c => c != ',' && c != '\x7d' && !isJsSpace c
      match cs.dropWhile isJsSpace with
      | [] => none
      | c :: cs =>
        if hidden c then
          some (quote ++ key ++ quote' ++ space ++ [sep] ++ space', cs.dropWhile hidden)
        else none
    else none

/-- Every replacement consumes text, so the length of the text is fuel enough. -/
def redactChars : Nat → List Char → List Char
  | 0, cs => cs
  | _, [] => []
  | fuel + 1, c :: cs =>
    match matchSecret (c :: cs) with
    | some (kept, rest) => kept ++ "[REDACTED]".toList ++ redactChars fuel rest
    | none => c :: redactChars fuel cs

def redact (value : String) : String :=
  String.ofList (redactChars value.toList.length value.toList)

/-! ### Classification -/

def isRetryable (status : Nat) : Bool :=
  status ≥ 500 || [408, 409, 425, 429].contains status

/-- `a || b` on numbers that may be absent. -/
def orStatus (a b : Option Nat) : Option Nat := (a.filter (· != 0)).or b

def SendError.statusCode (e : SendError) : Nat :=
  (orStatus e.responseStatus (orStatus e.status (some 500))).getD 500

def orText (a : Option String) (b : String) : String :=
  match a with
  | some text => if text = "" then b else text
  | none => b

def SendError.responseText (e : SendError) : String :=
  orText e.responseData (orText e.message "Unknown error")

def truncate (text : String) : String := utf16Prefix 255 text

def successSnippet (cfg : Config) (status : Nat) (data : String) : String :=
  if cfg.captureResponseBodies then orText (some (truncate (redact data))) "OK"
  else s!"HTTP {status}"

def failureSnippet (cfg : Config) (e : SendError) : String :=
  if cfg.captureResponseBodies then truncate (redact e.responseText) else s!"HTTP {e.statusCode}"

/-- The write that follows an answer. `nextAttemptAt` is what the back-off or the
`Retry-After` header makes of the moment of the failure. -/
def outcomeWrite (cfg : Config) (delivery : DispatchableDelivery) (nextAttemptAt : Time) :
    SendResult → OutcomeWrite
  | .resolved status data => .success status (successSnippet cfg status data)
  | .rejected e =>
    if delivery.row.attempts ≥ cfg.maxAttempts || !isRetryable e.statusCode then
      .deadLetter e.statusCode (failureSnippet cfg e)
    else
      .retry
        { id := delivery.id
          statusCode := e.statusCode
          responseSnippet := failureSnippet cfg e
          nextAttemptAt := nextAttemptAt
          nextAttemptNumber := delivery.row.attempts + 1 }

/-- What the catch block sees when the write of a success finds no row. -/
def recordNotFound : SendError where
  responseStatus := none
  responseData := none
  status := none
  message := some "Record to update not found."

end WebhookEngine

import Anadil.Editor.Cache

/-! # The language server

What the server does when an editor speaks to it: it keeps the texts of open documents, and publishes
what is wrong with them when that changes. -/

namespace Anadil.Editor

def serverName : Text := "turkpy"

/-- A part of a change of a document. -/
inductive Change where
  /-- The whole new text. -/
  | whole (text : Text)
  /-- A new text for a stretch of the document. -/
  | stretch (text : Text)
  /-- Something else. -/
  | other
deriving DecidableEq, Repr

/-- What an editor says. -/
inductive Message where
  | greeted (client : Option Text)
  | initialized
  | shutdown
  | setTrace
  | opened (uri text : Text)
  | changed (uri : Text) (changes : List Change)
  | saved (uri : Text) (text : Option Text)
  | closed (uri : Text)
deriving DecidableEq, Repr

/-- What the server tells of a document. -/
structure Publication where
  uri : Text
  complaints : List Complaint
deriving DecidableEq, Repr

/-- What the server says of itself when it is greeted. -/
structure Greeting where
  name : Text
  version : Text
  /-- It wants to hear of documents that are opened and closed. -/
  openClose : Bool
  /-- It wants whole texts. -/
  wholeTexts : Bool
deriving DecidableEq, Repr

def greeting : Greeting := ⟨serverName, version.core, true, true⟩

def publishMethod : Text := "textDocument/publishDiagnostics"

/-- The server's state with what it has published and logged so far. -/
structure Session where
  /-- Whether there is an editor to publish to. -/
  connected : Bool
  cache : Cache
  published : List Publication
  log : List Log.Record

namespace Session

def start (connected : Bool) : Session := ⟨connected, Cache.empty, [], []⟩

def fresh (s : Session) : Session := { s with published := [], log := [] }

def note (s : Session) (r : Log.Record) : Session := { s with log := s.log ++ [r] }

/-- Publishes complaints, if there is an editor. -/
def publish (s : Session) (uri : Text) (complaints : List Complaint) : Session :=
  if s.connected then { s with published := s.published ++ [⟨uri, complaints⟩] } else s

def truth (b : Bool) : Text := if b then "true" else "false"

section
variable (digest : Text → Digest)

/-- Takes a text, and publishes the complaints about it when it is new or `always`. -/
def update (s : Session) (uri text : Text) (always : Bool) : Session :=
  let (d, fresh, cache) := s.cache.update digest uri text
  let s := { s with cache }.note
    (Log.debug "lsp: update"
      [("uri", uri), ("length", Text.decimal text.width), ("fresh", truth fresh),
        ("diagnostics", Text.decimal d.complaints.length)])
  if fresh || always then s.publish uri d.complaints else s

def change (s : Session) (uri : Text) : Change → Session
  | .whole text => s.update digest uri text false
  | .stretch _ => s.note (Log.warn "lsp: ignoring incremental change" [("uri", uri)])
  | .other => s

def receive (s : Session) : Message → Session
  | .greeted client =>
    s.note (Log.info "lsp: initialize" [("client", client.getD "unknown")])
  | .initialized => s.note (Log.debug "lsp: initialized" [])
  | .shutdown => s.note (Log.info "lsp: shutdown" [("documents", Text.decimal s.cache.size)])
  | .setTrace => s
  | .opened uri text => s.update digest uri text true
  | .changed uri changes => changes.foldl (fun s c => s.change digest uri c) s
  | .saved uri text =>
    match text with
    | some t => s.update digest uri t false
    | none => s
  | .closed uri => { s with cache := s.cache.remove uri }.publish uri []

end

end Session

end Anadil.Editor

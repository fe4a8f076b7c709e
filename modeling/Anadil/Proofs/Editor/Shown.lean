import Anadil.Editor.Server
import Mathlib.Data.Set.Function

/-! # What an editor shows

The server publishes the complaints about a text only when the text is new to its cache, and the cache forgets
documents: those that are closed, and the one that was updated longest ago when one too many is opened. Still the
editor shows, for each document, the complaints about the text it reported last. The reason is that a document
in the cache is one whose complaints are shown (`Session.Current`), and one that was forgotten is new again. A text is
known again by its digest, so all this is about texts of which no two have one digest. -/

namespace Anadil.Editor

/-! ### What is said and what is shown -/

/-- What an editor reports of a document: its whole text, or that it was closed. -/
structure Report where
  uri : Text
  text : Option Text

/-- What is to be shown after a report. -/
def Report.complaints (r : Report) : List Complaint :=
  match r.text with
  | some t => diagnose t
  | none => []

/-- The whole text of a change, if it has one. -/
def Change.text? : Change → Option Text
  | .whole text => some text
  | .stretch _ => none
  | .other => none

/-- What a message reports, in order. Parts of a text are not taken. -/
def Message.reports : Message → List Report
  | .opened uri text => [⟨uri, some text⟩]
  | .changed uri changes => (changes.filterMap Change.text?).map fun t => ⟨uri, some t⟩
  | .saved uri text => text.toList.map fun t => ⟨uri, some t⟩
  | .closed uri => [⟨uri, none⟩]
  | .greeted _ => []
  | .initialized => []
  | .shutdown => []
  | .setTrace => []

/-- The last report of a document. -/
def lastReport? (rs : List Report) (uri : Text) : Option Report := (rs.filter (·.uri == uri)).getLast?

/-- What was published last of a document. -/
def Session.shown? (s : Session) (uri : Text) : Option (List Complaint) :=
  (s.published.filter (·.uri == uri)).getLast?.map (·.complaints)

theorem lastReport?_append (rs : List Report) (r : Report) (uri : Text) :
    lastReport? (rs ++ [r]) uri = if r.uri = uri then some r else lastReport? rs uri := by
  by_cases h : r.uri = uri <;> simp [lastReport?, h]

/-- Complaints are shown for the document they were published for, and the others stay. -/
theorem shown?_publish {s : Session} (h : s.connected = true) (uri : Text) (complaints : List Complaint)
    (uri' : Text) :
    (s.publish uri complaints).shown? uri' = if uri = uri' then some complaints else s.shown? uri' := by
  by_cases hu : uri = uri' <;> simp [Session.publish, Session.shown?, h, hu]

/-! ### The cache -/

/-- A document with the digest of its text and the complaints about it, the text being one of those that are told
apart. -/
structure Document.Sound (digest : Text → Digest) (known : Set Text) (d : Document) : Prop where
  known : d.text ∈ known
  digested : d.digest = digest d.text
  checked : d.complaints = diagnose d.text

/-- Among texts whose digests differ, the digest tells whether the text is the same. -/
theorem Document.Sound.digest_eq_iff {digest : Text → Digest} {known : Set Text} {d : Document} {text : Text}
    (h : d.Sound digest known) (hdigest : Set.InjOn digest known) (htext : text ∈ known) :
    d.digest = digest text ↔ d.text = text := by
  rw [h.digested, hdigest.eq_iff h.known htext]

namespace Cache
variable {digest : Text → Digest} {known : Set Text} {c : Cache} {d e : Document} {docs : List Document}
  {uri text : Text}

theorem mem_put (h : e ∈ put docs d) : e = d ∨ e ∈ docs ∧ e.uri ≠ d.uri := by
  unfold put at h
  split at h
  · obtain ⟨e', he', rfl⟩ := List.mem_map.mp h
    by_cases hu : e'.uri = d.uri
    · exact .inl (if_pos (beq_iff_eq.mpr hu))
    · rw [if_neg fun heq => hu (beq_iff_eq.mp heq)]
      exact .inr ⟨he', hu⟩
  · rename_i hnone
    rcases List.mem_append.mp h with hold | hnew
    · refine .inr ⟨hold, fun hu => hnone ?_⟩
      exact List.any_eq_true.mpr ⟨e, hold, beq_iff_eq.mpr hu⟩
    · exact .inl (List.mem_singleton.mp hnew)

theorem mem_remove (h : e ∈ (c.remove uri).documents) : e ∈ c.documents ∧ e.uri ≠ uri := by
  simpa [remove] using h

theorem mem_evictOldest (h : e ∈ c.evictOldest.documents) : e ∈ c.documents := by
  unfold evictOldest at h
  split at h
  · exact h
  · exact (mem_remove h).1

/-- What taking a text comes to: the document is known with this text and stays as it is, or it is checked anew.
Of the other documents none is added. -/
theorem update_cases {fresh : Bool} {c' : Cache} (hdigest : Set.InjOn digest known)
    (hsound : ∀ e ∈ c.documents, e.Sound digest known) (hknown : text ∈ known)
    (h : c.update digest uri text = (d, fresh, c')) :
    ((fresh = false ∧ ∃ k ∈ c.documents, k.uri = uri ∧ k.text = text) ∨ fresh = true) ∧
    d.uri = uri ∧ d.text = text ∧ d.Sound digest known ∧
      ∀ e ∈ c'.documents, e = d ∨ e ∈ c.documents ∧ e.uri ≠ uri := by
  unfold update at h
  cases hk : c.get? uri with
  | none =>
    simp only [hk, Option.filter_none, Prod.mk.injEq] at h
    obtain ⟨rfl, rfl, rfl⟩ := h
    refine ⟨.inr rfl, rfl, rfl, ⟨hknown, rfl, rfl⟩, fun e he => ?_⟩
    rcases mem_put he with rfl | ⟨hold, hu⟩
    · exact .inl rfl
    · refine .inr ⟨?_, hu⟩
      split at hold
      · exact mem_evictOldest hold
      · exact hold
  | some k =>
    have hmem : k ∈ c.documents := List.mem_of_find?_eq_some hk
    have huri : k.uri = uri := by simpa using List.find?_some hk
    have hsame := (hsound k hmem).digest_eq_iff hdigest hknown
    by_cases htext : k.text = text
    · simp only [hk, Option.filter_some, beq_iff_eq, hsame.mpr htext, if_true, Prod.mk.injEq] at h
      obtain ⟨rfl, rfl, rfl⟩ := h
      have hsound : Document.Sound digest known { k with digest := digest text, touched := c.clock + 1 } :=
        ⟨(hsound k hmem).known, congrArg digest htext.symm, (hsound k hmem).checked⟩
      refine ⟨.inl ⟨rfl, k, hmem, huri, htext⟩, huri, htext, hsound, fun e he => ?_⟩
      rcases mem_put he with rfl | ⟨hold, hu⟩
      · exact .inl rfl
      · exact .inr ⟨hold, fun heq => hu (heq.trans huri.symm)⟩
    · simp only [hk, Option.filter_some, beq_iff_eq, hsame, htext, if_false, Prod.mk.injEq] at h
      obtain ⟨rfl, rfl, rfl⟩ := h
      refine ⟨.inr rfl, rfl, rfl, ⟨hknown, rfl, rfl⟩, fun e he => ?_⟩
      rcases mem_put he with rfl | ⟨hold, hu⟩
      · exact .inl rfl
      · exact .inr ⟨hold, hu⟩

end Cache

/-! ### Messages -/

section
variable (digest : Text → Digest) (known : Set Text)

/-- The editor shows what its last reports call for, and what is in the cache is what it reported last. -/
structure Session.Current (s : Session) (rs : List Report) : Prop where
  connected : s.connected = true
  shown : ∀ uri, s.shown? uri = (lastReport? rs uri).map Report.complaints
  sound : ∀ d ∈ s.cache.documents, d.Sound digest known
  cached : ∀ d ∈ s.cache.documents, lastReport? rs d.uri = some ⟨d.uri, some d.text⟩

end

namespace Session.Current
variable {digest : Text → Digest} {known : Set Text} {s : Session} {rs : List Report} (h : s.Current digest known rs)
include h

theorem note (r : Log.Record) : (s.note r).Current digest known rs := ⟨h.connected, h.shown, h.sound, h.cached⟩

theorem cached_append {d : Document} {r : Report} (hd : d ∈ s.cache.documents) (hne : d.uri ≠ r.uri) :
    lastReport? (rs ++ [r]) d.uri = some ⟨d.uri, some d.text⟩ := by
  rw [lastReport?_append, if_neg (Ne.symm hne), h.cached d hd]

theorem publish {c : Cache} {log : List Log.Record} {r : Report} (hsound : ∀ d ∈ c.documents, d.Sound digest known)
    (hcached : ∀ d ∈ c.documents, lastReport? (rs ++ [r]) d.uri = some ⟨d.uri, some d.text⟩) :
    (Session.publish { s with cache := c, log } r.uri r.complaints).Current digest known (rs ++ [r]) := by
  have hpublish : Session.publish { s with cache := c, log } r.uri r.complaints =
      { s with cache := c, published := s.published ++ [⟨r.uri, r.complaints⟩], log } := if_pos h.connected
  refine ⟨?_, fun uri => ?_, ?_, ?_⟩
  · rw [hpublish]
    exact h.connected
  · rw [shown?_publish (s := { s with cache := c, log }) h.connected, lastReport?_append]
    split
    · rfl
    · exact h.shown uri
  · rw [hpublish]
    exact hsound
  · rw [hpublish]
    exact hcached

theorem close (uri : Text) :
    (Session.publish { s with cache := s.cache.remove uri } uri []).Current digest known (rs ++ [⟨uri, none⟩]) := by
  refine h.publish (r := ⟨uri, none⟩) (fun d hd => h.sound d (Cache.mem_remove hd).1) fun d hd => ?_
  obtain ⟨hold, hne⟩ := Cache.mem_remove hd
  exact h.cached_append hold hne

variable (hdigest : Set.InjOn digest known)
include hdigest

/-- After an update the newest text is shown. -/
theorem update (uri : Text) {text : Text} (hknown : text ∈ known) (always : Bool) :
    (s.update digest uri text always).Current digest known (rs ++ [⟨uri, some text⟩]) := by
  rcases hupdate : s.cache.update digest uri text with ⟨d, fresh, c'⟩
  obtain ⟨hfresh, huri, htext, hd, hrest⟩ := Cache.update_cases hdigest h.sound hknown hupdate
  have hcomplaints : d.complaints = diagnose text := htext ▸ hd.checked
  have hsound : ∀ e ∈ c'.documents, e.Sound digest known := by
    intro e he
    rcases hrest e he with rfl | ⟨hold, -⟩
    · exact hd
    · exact h.sound e hold
  have hcached : ∀ e ∈ c'.documents, lastReport? (rs ++ [⟨uri, some text⟩]) e.uri = some ⟨e.uri, some e.text⟩ := by
    intro e he
    rcases hrest e he with rfl | ⟨hold, hne⟩
    · rw [lastReport?_append, if_pos huri.symm, huri, htext]
    · exact h.cached_append hold hne
  unfold Session.update
  rw [hupdate]
  dsimp only
  rw [hcomplaints]
  split
  · exact h.publish (r := ⟨uri, some text⟩) hsound hcached
  · -- nothing is published: the text is the one that was reported last
    rename_i hquiet
    refine ⟨h.connected, fun uri' => ?_, hsound, hcached⟩
    have hshown : s.shown? uri' = (lastReport? rs uri').map Report.complaints := h.shown uri'
    rw [lastReport?_append]
    split
    · rename_i hu
      obtain rfl : uri = uri' := hu
      rcases hfresh with ⟨-, k, hk, rfl, rfl⟩ | rfl
      · rw [h.cached k hk] at hshown
        exact hshown
      · exact absurd rfl hquiet
    · exact hshown

/-- After a change the text that it has is shown, if it has one. -/
theorem change (uri : Text) (c : Change) (hknown : ∀ t ∈ c.text?, t ∈ known) :
    (s.change digest uri c).Current digest known (rs ++ (c.text?.toList.map fun t => ⟨uri, some t⟩)) := by
  cases c with
  | whole text => exact h.update hdigest uri (hknown text rfl) false
  | stretch text => simpa [Session.change, Change.text?] using h.note _
  | other => simpa [Session.change, Change.text?] using h

theorem changes (uri : Text) (cs : List Change) (hknown : ∀ t ∈ cs.filterMap Change.text?, t ∈ known) :
    (cs.foldl (fun s c => s.change digest uri c) s).Current digest known
      (rs ++ ((cs.filterMap Change.text?).map fun t => ⟨uri, some t⟩)) := by
  induction cs generalizing s rs with
  | nil => simpa using h
  | cons c cs ih =>
    have hsplit : (c :: cs).filterMap Change.text? = c.text?.toList ++ cs.filterMap Change.text? := by
      rw [List.filterMap_cons]
      cases c.text? <;> rfl
    rw [hsplit] at hknown ⊢
    rw [List.map_append, ← List.append_assoc]
    refine ih (h.change hdigest uri c fun t ht => ?_) fun t ht => hknown t (List.mem_append_right _ ht)
    exact hknown t (List.mem_append_left _ (Option.mem_toList.mpr ht))

theorem receive (m : Message) (hknown : ∀ r ∈ m.reports, ∀ t ∈ r.text, t ∈ known) :
    (s.receive digest m).Current digest known (rs ++ m.reports) := by
  cases m with
  | opened uri text => exact h.update hdigest uri (hknown _ (List.mem_singleton_self _) text rfl) true
  | changed uri changes =>
    exact h.changes hdigest uri changes fun t ht => hknown _ (List.mem_map_of_mem ht) t rfl
  | saved uri text =>
    cases text with
    | none => simpa [Session.receive, Message.reports] using h
    | some t => exact h.update hdigest uri (hknown _ (List.mem_singleton_self _) t rfl) false
  | closed uri => exact h.close uri
  | greeted client => simpa [Session.receive, Message.reports] using h.note _
  | initialized => simpa [Session.receive, Message.reports] using h.note _
  | shutdown => simpa [Session.receive, Message.reports] using h.note _
  | setTrace => simpa [Session.receive, Message.reports] using h

/-- After any messages what is shown is current. -/
theorem run (ms : List Message) (hknown : ∀ r ∈ ms.flatMap Message.reports, ∀ t ∈ r.text, t ∈ known) :
    (ms.foldl (Session.receive digest) s).Current digest known (rs ++ ms.flatMap Message.reports) := by
  induction ms generalizing s rs with
  | nil => simpa using h
  | cons m ms ih =>
    rw [List.flatMap_cons, List.forall_mem_append] at hknown
    rw [List.flatMap_cons, ← List.append_assoc]
    exact ih (h.receive hdigest m hknown.1) hknown.2

end Session.Current

theorem current_start (digest : Text → Digest) (known : Set Text) : (Session.start true).Current digest known [] :=
  ⟨rfl, fun _ => rfl, fun _ hd => absurd hd List.not_mem_nil, fun _ hd => absurd hd List.not_mem_nil⟩

/-- Whatever an editor says of whatever documents, it shows of each the complaints about the text it reported last,
none if it closed the document since, and nothing if it never reported one. No two of the texts that are reported may
have one digest. -/
theorem shown_current {digest : Text → Digest} {ms : List Message}
    (hdigest : Set.InjOn digest {t | ∃ r ∈ ms.flatMap Message.reports, t ∈ r.text}) (uri : Text) :
    (ms.foldl (Session.receive digest) (Session.start true)).shown? uri =
      (lastReport? (ms.flatMap Message.reports) uri).map Report.complaints := by
  have hrun := (current_start digest _).run hdigest ms fun r hr t ht => ⟨r, hr, ht⟩
  rw [List.nil_append] at hrun
  exact hrun.shown uri

/-- A document that is opened, broken by a change, saved as it is, and mended in two steps of one change, and another
that is closed. -/
def editedMessages : List Message :=
  [.opened "a" "x = 1", .changed "a" [.whole "x ="], .opened "b" "x =", .saved "a" (some "x ="),
    .changed "a" [.stretch "1", .whole "y", .whole "x = 1"], .closed "b"]

theorem shown_current_edited :
    (editedMessages.foldl (Session.receive Text.bytes) (Session.start true)).shown? "a" = some (diagnose "x = 1") ∧
      (editedMessages.foldl (Session.receive Text.bytes) (Session.start true)).shown? "b" = some [] := by
  have hdigest : Set.InjOn Text.bytes {t | ∃ r ∈ editedMessages.flatMap Message.reports, t ∈ r.text} := by
    have htexts : ∀ r ∈ editedMessages.flatMap Message.reports, ∀ t ∈ r.text,
        t ∈ (["x = 1", "x =", "y"] : List Text) := by decide
    have hapart : ∀ t ∈ (["x = 1", "x =", "y"] : List Text), ∀ u ∈ (["x = 1", "x =", "y"] : List Text),
        t.bytes = u.bytes → t = u := by decide
    rintro t ⟨r, hr, ht⟩ u ⟨q, hq, hu⟩
    exact hapart t (htexts r hr t ht) u (htexts q hq u hu)
  exact ⟨shown_current hdigest "a", shown_current hdigest "b"⟩

end Anadil.Editor

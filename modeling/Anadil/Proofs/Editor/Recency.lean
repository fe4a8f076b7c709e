import Anadil.Proofs.Editor.Shown
import Mathlib.Data.List.Induction
import Mathlib.Data.List.Nodup

/-! # The cache as a list in order of use

The cache keeps its documents in no order that means anything: when each was updated is a stamp inside it, and to make
room the documents are searched for the least stamp. It still does what a plain list does in which the document that
was updated last stands in front (`Roll`). The stamps of the documents are all different and not above the clock, so
the list is the documents in the order of their stamps (`Ranked`), and the search finds the last of them. The clock has
sixty-four bits and must not come round, and no two texts may have one digest. -/

namespace Anadil.Editor

/-- What is asked of a cache. -/
inductive Call where
  | update (uri text : Text)
  | get (uri : Text)
  | remove (uri : Text)

/-- Whether a call moves the clock. -/
def Call.isUpdate : Call → Bool
  | .update _ _ => true
  | .get _ => false
  | .remove _ => false

/-- The cache behind a call. -/
def Cache.after (digest : Text → Digest) (c : Cache) : Call → Cache
  | .update uri text => (c.update digest uri text).2.2
  | .get _ => c
  | .remove uri => c.remove uri

/-- Addresses with their texts, the one that was updated last in front. -/
abbrev Roll := List (Text × Text)

namespace Roll

/-- The list without an address. -/
def without (r : Roll) (uri : Text) : Roll := r.filter (·.1 != uri)

/-- Moves an address to the front. One that is new takes the place of the last when there are a hundred. -/
def update (r : Roll) (uri text : Text) : Roll :=
  if r.any (·.1 == uri) then (uri, text) :: r.without uri
  else (uri, text) :: if 100 ≤ r.length then r.dropLast else r

/-- The list behind a call. -/
def after (r : Roll) : Call → Roll
  | .update uri text => r.update uri text
  | .get _ => r
  | .remove uri => r.without uri

end Roll

/-- The text that a call brings for an address. -/
def Call.textFor? (uri : Text) : Call → Option Text
  | .update uri' text => if uri' = uri then some text else none
  | .get _ => none
  | .remove _ => none

/-- The text that was brought last for an address. -/
def lastText? (calls : List Call) (uri : Text) : Option Text := (calls.filterMap (Call.textFor? uri)).getLast?

/-- What the list keeps of a document. -/
def Document.entry (d : Document) : Text × Text := (d.uri, d.text)

/-! ### Lists with distinct keys -/

section Keys
variable {α κ : Type} [BEq κ] [LawfulBEq κ] {f : α → κ} {l l' : List α} {a : α} {k : κ}

theorem find?_eq_some_of_key (h : (l.map f).Nodup) : l.find? (f · == k) = some a ↔ a ∈ l ∧ f a = k := by
  constructor
  · intro hfind
    exact ⟨List.mem_of_find?_eq_some hfind, by simpa using List.find?_some hfind⟩
  · rintro ⟨ha, rfl⟩
    obtain ⟨b, hb⟩ := Option.isSome_iff_exists.mp
      (List.find?_isSome.mpr ⟨a, ha, beq_self_eq_true (f a)⟩ : (l.find? (f · == f a)).isSome)
    have hf : f b = f a := by simpa using List.find?_some hb
    rw [hb, List.inj_on_of_nodup_map h (List.mem_of_find?_eq_some hb) ha hf]

theorem find?_perm_of_key (h : (l.map f).Nodup) (hperm : l.Perm l') (k : κ) :
    l.find? (f · == k) = l'.find? (f · == k) := by
  refine Option.ext fun a => ?_
  rw [find?_eq_some_of_key h, find?_eq_some_of_key ((hperm.map f).nodup_iff.mp h), hperm.mem_iff]

end Keys

/-! ### Stamps -/

namespace Cache
variable {digest : Text → Digest} {known : Set Text} {c : Cache} {d e : Document} {docs ds : List Document}
  {uri text : Text}

/-- Of two documents the one that was updated first, the first of the two if they do not differ in this. -/
def older (b d : Document) : Document := if d.touched < b.touched then d else b

theorem oldest?_cons (d : Document) (docs : List Document) : oldest? (d :: docs) = some (docs.foldl older d) := by
  unfold oldest?
  rw [List.foldl_cons]
  induction docs generalizing d with
  | nil => rfl
  | cons e docs ih =>
    rw [List.foldl_cons, List.foldl_cons, ← ih (older d e)]
    simp only [older]
    split <;> rfl

theorem foldl_older (d : Document) (docs : List Document) :
    docs.foldl older d ∈ d :: docs ∧ ∀ e ∈ d :: docs, (docs.foldl older d).touched ≤ e.touched := by
  induction docs generalizing d with
  | nil => simp
  | cons e docs ih =>
    obtain ⟨hmem, hle⟩ := ih (older d e)
    have hmin : (older d e).touched ≤ d.touched ∧ (older d e).touched ≤ e.touched := by
      unfold older
      split
      · exact ⟨UInt64.le_of_lt ‹_›, UInt64.le_refl _⟩
      · exact ⟨UInt64.le_refl _, UInt64.not_lt.mp ‹_›⟩
    refine ⟨?_, fun x hx => ?_⟩
    · rcases List.mem_cons.mp hmem with heq | hmem
      · rw [List.foldl_cons, heq]
        unfold older
        split <;> simp
      · exact List.mem_cons_of_mem _ (List.mem_cons_of_mem _ hmem)
    · have hfirst := hle (older d e) List.mem_cons_self
      rcases List.mem_cons.mp hx with rfl | hx
      · exact UInt64.le_trans hfirst hmin.1
      · rcases List.mem_cons.mp hx with rfl | hx
        · exact UInt64.le_trans hfirst hmin.2
        · exact hle x (List.mem_cons_of_mem _ hx)

/-- The search finds a document with the least stamp, in whatever order it goes. -/
theorem oldest?_spec (h : docs ≠ []) : ∃ d, oldest? docs = some d ∧ d ∈ docs ∧ ∀ e ∈ docs, d.touched ≤ e.touched := by
  obtain ⟨d, docs, rfl⟩ := List.exists_cons_of_ne_nil h
  exact ⟨_, oldest?_cons d docs, foldl_older d docs⟩

/-- The documents of a cache in some order, no two with one address. -/
structure Held (digest : Text → Digest) (known : Set Text) (c : Cache) (ds : List Document) : Prop where
  same : ds.Perm c.documents
  apart : (ds.map Document.uri).Nodup
  sound : ∀ d ∈ ds, d.Sound digest known

namespace Held
variable (h : Held digest known c ds)
include h

theorem documents_apart : (c.documents.map Document.uri).Nodup := (h.same.map _).nodup_iff.mp h.apart

theorem get?_eq (uri : Text) : c.get? uri = ds.find? (·.uri == uri) :=
  (find?_perm_of_key h.apart h.same uri).symm

theorem get?_eq_some : c.get? uri = some d ↔ d ∈ ds ∧ d.uri = uri := by
  rw [h.get?_eq, find?_eq_some_of_key h.apart]

theorem get?_eq_none : c.get? uri = none ↔ ∀ d ∈ ds, d.uri ≠ uri := by
  rw [h.get?_eq, List.find?_eq_none]
  simp

theorem size_eq : c.size = ds.length := h.same.length_eq.symm

theorem remove (uri : Text) : Held digest known (c.remove uri) (ds.filter (·.uri != uri)) where
  same := h.same.filter _
  apart := h.apart.sublist (List.filter_sublist.map _)
  sound d hd := h.sound d (List.mem_filter.mp hd).1

end Held

/-- The documents of a cache in the order of their stamps, the last updated first. -/
structure Ranked (digest : Text → Digest) (known : Set Text) (c : Cache) (ds : List Document) : Prop extends
    Held digest known c ds where
  falling : ds.Pairwise fun d e => e.touched < d.touched
  stamped : ∀ d ∈ ds, d.touched ≤ c.clock

namespace Ranked
variable (h : Ranked digest known c ds)
include h

/-- Whatever order the documents are searched in, the one that is found is the last. -/
theorem oldest?_eq (hperm : docs.Perm ds) : oldest? docs = ds.getLast? := by
  rcases List.eq_nil_or_concat ds with rfl | ⟨front, b, rfl⟩
  · rw [hperm.eq_nil]
    rfl
  · rw [List.concat_eq_append] at *
    have hb : b ∈ docs := hperm.mem_iff.mpr (List.mem_append_right _ (List.mem_singleton_self b))
    obtain ⟨d, hd, hmem, hle⟩ := oldest?_spec (List.ne_nil_of_mem hb)
    rw [hd, List.getLast?_append, List.getLast?_singleton, Option.some_or]
    rcases List.mem_append.mp (hperm.mem_iff.mp hmem) with hfront | hlast
    · have hlt := (List.pairwise_append.mp h.falling).2.2 d hfront b (List.mem_singleton_self b)
      exact absurd (hle b hb) (UInt64.not_le.mpr hlt)
    · rw [List.mem_singleton.mp hlast]

theorem remove (uri : Text) : Ranked digest known (c.remove uri) (ds.filter (·.uri != uri)) where
  toHeld := h.toHeld.remove uri
  falling := h.falling.sublist List.filter_sublist
  stamped d hd := h.stamped d (List.mem_filter.mp hd).1

theorem evictOldest : Ranked digest known c.evictOldest ds.dropLast := by
  have holdest : oldest? c.documents = ds.getLast? := h.oldest?_eq h.same.symm
  unfold Cache.evictOldest
  rcases List.eq_nil_or_concat ds with rfl | ⟨front, b, rfl⟩
  · rw [holdest]
    exact h
  · rw [List.concat_eq_append] at *
    rw [holdest, List.getLast?_append, List.getLast?_singleton, Option.some_or, List.dropLast_concat]
    dsimp only
    have hfront : (front ++ [b]).filter (·.uri != b.uri) = front := by
      have hne : ∀ d ∈ front, d.uri ≠ b.uri := by
        have hapart := h.apart
        rw [List.map_append, List.nodup_append] at hapart
        exact fun d hd => hapart.2.2 _ (List.mem_map_of_mem hd) _ (List.mem_singleton_self _)
      rw [List.filter_append, List.filter_eq_self.mpr fun d hd => bne_iff_ne.mpr (hne d hd)]
      simp
    exact hfront ▸ h.remove b.uri

end Ranked

/-! ### Updates -/

theorem evictOldest_clock (c : Cache) : c.evictOldest.clock = c.clock := by
  unfold evictOldest
  split <;> rfl

theorem put_perm (h : (docs.map Document.uri).Nodup) (d : Document) :
    (put docs d).Perm (d :: docs.filter (·.uri != d.uri)) := by
  have hput : ∀ docs : List Document, (docs.map Document.uri).Nodup → docs.any (·.uri == d.uri) = true →
      (docs.map fun e => if e.uri == d.uri then d else e).Perm (d :: docs.filter (·.uri != d.uri)) := by
    intro docs
    induction docs with
    | nil => exact fun _ hany => absurd hany Bool.false_ne_true
    | cons e docs ih =>
      intro hnodup hany
      rw [List.map_cons, List.nodup_cons] at hnodup
      by_cases he : e.uri = d.uri
      · have hrest : ∀ x ∈ docs, x.uri ≠ d.uri := fun x hx heq =>
          hnodup.1 (List.mem_map.mpr ⟨x, hx, heq.trans he.symm⟩)
        have hmap : docs.map (fun e => if e.uri == d.uri then d else e) = docs :=
          (List.map_congr_left fun x hx => if_neg fun heq => hrest x hx (beq_iff_eq.mp heq)).trans (List.map_id' docs)
        have hfilter : docs.filter (·.uri != d.uri) = docs :=
          List.filter_eq_self.mpr fun x hx => bne_iff_ne.mpr (hrest x hx)
        rw [List.map_cons, if_pos (beq_iff_eq.mpr he), hmap, List.filter_cons_of_neg (by simp [he]), hfilter]
      · rw [List.any_cons, beq_eq_false_iff_ne.mpr he, Bool.false_or] at hany
        rw [List.map_cons, if_neg fun heq => he (beq_iff_eq.mp heq), List.filter_cons_of_pos (by simpa using he)]
        exact ((ih hnodup.2 hany).cons e).trans (.swap d e _)
  unfold put
  split
  · exact hput docs h ‹_›
  · rename_i hnone
    have hne : ∀ x ∈ docs, x.uri ≠ d.uri := fun x hx heq =>
      hnone (List.any_eq_true.mpr ⟨x, hx, beq_iff_eq.mpr heq⟩)
    rw [List.filter_eq_self.mpr fun x hx => bne_iff_ne.mpr (hne x hx)]
    exact List.perm_append_singleton d docs

theorem Held.put (h : Held digest known c ds) (hsound : d.Sound digest known) (now : UInt64) :
    Held digest known ⟨Cache.put c.documents d, now⟩ (d :: ds.filter (·.uri != d.uri)) where
  same := ((h.same.filter _).cons d).trans (put_perm h.documents_apart d).symm
  apart := by
    rw [List.map_cons, List.nodup_cons]
    refine ⟨fun hmem => ?_, h.apart.sublist (List.filter_sublist.map _)⟩
    obtain ⟨e, he, heq⟩ := List.mem_map.mp hmem
    exact bne_iff_ne.mp (List.mem_filter.mp he).2 heq
  sound e he := by
    rcases List.mem_cons.mp he with rfl | he
    · exact hsound
    · exact h.sound e (List.mem_filter.mp he).1

/-- A document with a stamp above the clock may stand in front. -/
theorem Ranked.put (h : Ranked digest known c ds) (hsound : d.Sound digest known) (hlater : c.clock < d.touched) :
    Ranked digest known ⟨Cache.put c.documents d, d.touched⟩ (d :: ds.filter (·.uri != d.uri)) where
  toHeld := h.toHeld.put hsound d.touched
  falling := by
    refine List.pairwise_cons.mpr ⟨fun e he => ?_, h.falling.sublist List.filter_sublist⟩
    exact UInt64.lt_of_le_of_lt (h.stamped e (List.mem_filter.mp he).1) hlater
  stamped e he := by
    rcases List.mem_cons.mp he with rfl | he
    · exact UInt64.le_refl _
    · exact UInt64.le_trans (h.stamped e (List.mem_filter.mp he).1) (UInt64.le_of_lt hlater)

/-- The documents that stay when one is updated: the others, but not the last if room has to be made. -/
def staying (ds : List Document) (uri : Text) : List Document :=
  if ds.any (·.uri == uri) then ds.filter (·.uri != uri)
  else if 100 ≤ ds.length then ds.dropLast else ds

theorem Held.staying_eq (h : Held digest known c ds) (hd : c.get? uri = some d) : staying ds uri = ds.filter (·.uri != uri) := by
  obtain ⟨hmem, rfl⟩ := h.get?_eq_some.mp hd
  exact if_pos (List.any_eq_true.mpr ⟨d, hmem, beq_self_eq_true d.uri⟩)

/-- What an update comes to: the document goes in front of those that stay, and it is not checked again exactly if it
was there with the same text. -/
structure Updated (digest : Text → Digest) (known : Set Text) (c : Cache) (ds : List Document) (uri text : Text)
    (d : Document) (fresh : Bool) (c' : Cache) : Prop where
  uri_eq : d.uri = uri
  text_eq : d.text = text
  clock_eq : c'.clock = c.clock + 1
  held : Held digest known c' (d :: staying ds uri)
  ranked : c.clock < c.clock + 1 → Ranked digest known c' (d :: staying ds uri)
  stale : fresh = false ↔ ∃ k ∈ ds, k.uri = uri ∧ k.text = text

section
variable (h : Ranked digest known c ds) (hdigest : Set.InjOn digest known) (hknown : text ∈ known)
include h hdigest hknown

/-- What an update does to a document that is in the cache. -/
theorem Ranked.updated_known {k : Document} (hk : c.get? uri = some k) :
    Updated digest known c ds uri text (c.update digest uri text).1 (c.update digest uri text).2.1
      (c.update digest uri text).2.2 := by
  obtain ⟨hmem, huri⟩ := h.get?_eq_some.mp hk
  have hstaying := h.staying_eq hk
  have hsame := (h.sound k hmem).digest_eq_iff hdigest hknown
  by_cases htext : k.text = text
  · have hupdate : c.update digest uri text = ({ k with touched := c.clock + 1 }, false,
        ⟨Cache.put c.documents { k with touched := c.clock + 1 }, c.clock + 1⟩) := by
      simp [update, hk, Option.filter, hsame.mpr htext]
    have hsound : Document.Sound digest known { k with touched := c.clock + 1 } :=
      ⟨(h.sound k hmem).known, (h.sound k hmem).digested, (h.sound k hmem).checked⟩
    rw [hupdate]
    refine ⟨huri, htext, rfl, ?_, fun hclock => ?_, iff_of_true rfl ⟨k, hmem, huri, htext⟩⟩
    · rw [hstaying, ← huri]
      exact h.toHeld.put hsound (c.clock + 1)
    · rw [hstaying, ← huri]
      exact h.put hsound hclock
  · have hupdate : c.update digest uri text = (⟨uri, text, digest text, diagnose text, c.clock + 1⟩, true,
        ⟨Cache.put c.documents ⟨uri, text, digest text, diagnose text, c.clock + 1⟩, c.clock + 1⟩) := by
      simp [update, hk, Option.filter, hsame, htext]
    rw [hupdate]
    refine ⟨rfl, rfl, rfl, ?_, fun hclock => ?_, iff_of_false (Bool.noConfusion ·) fun ⟨k', hmem', huri', htext'⟩ => ?_⟩
    · rw [hstaying]
      exact h.toHeld.put (d := ⟨uri, _, _, _, _⟩) ⟨hknown, rfl, rfl⟩ (c.clock + 1)
    · rw [hstaying]
      exact h.put (d := ⟨uri, _, _, _, _⟩) ⟨hknown, rfl, rfl⟩ hclock
    · rw [List.inj_on_of_nodup_map h.apart hmem' hmem (huri'.trans huri.symm)] at htext'
      exact htext htext'

omit hdigest in
theorem Ranked.updated_new (hk : c.get? uri = none) :
    Updated digest known c ds uri text (c.update digest uri text).1 (c.update digest uri text).2.1
      (c.update digest uri text).2.2 := by
  have hne := h.get?_eq_none.mp hk
  have hstaying : staying ds uri = if 100 ≤ ds.length then ds.dropLast else ds :=
    if_neg fun hany => by
      obtain ⟨k, hmem, huri⟩ := List.any_eq_true.mp hany
      exact hne k hmem (beq_iff_eq.mp huri)
  have hupdate : c.update digest uri text = (⟨uri, text, digest text, diagnose text, c.clock + 1⟩, true,
      ⟨Cache.put (if capacity ≤ c.size then c.evictOldest else c).documents
        ⟨uri, text, digest text, diagnose text, c.clock + 1⟩, c.clock + 1⟩) := by
    simp [update, hk, Option.filter]
  -- room is made before the document is put in, which changes neither the clock nor what is asked of the others
  have hroom : Ranked digest known (if capacity ≤ c.size then c.evictOldest else c) (staying ds uri) := by
    rw [hstaying, h.size_eq, show capacity = 100 from rfl]
    split
    · exact h.evictOldest
    · exact h
  have hclock : (if capacity ≤ c.size then c.evictOldest else c).clock = c.clock := by
    split
    · exact evictOldest_clock c
    · rfl
  have hothers : (staying ds uri).filter (·.uri != uri) = staying ds uri := by
    refine List.filter_eq_self.mpr fun d hd => bne_iff_ne.mpr (hne d ?_)
    rw [hstaying] at hd
    split at hd
    · exact List.dropLast_subset ds hd
    · exact hd
  rw [hupdate]
  refine ⟨rfl, rfl, rfl, ?_, fun hlater => ?_, iff_of_false (Bool.noConfusion ·) fun ⟨k, hmem, huri, _⟩ => hne k hmem huri⟩
  · have hput := hroom.toHeld.put (d := ⟨uri, text, digest text, diagnose text, c.clock + 1⟩) ⟨hknown, rfl, rfl⟩
      (c.clock + 1)
    rwa [hothers] at hput
  · have hput := hroom.put (d := ⟨uri, text, digest text, diagnose text, c.clock + 1⟩) ⟨hknown, rfl, rfl⟩
      (hclock ▸ hlater)
    rwa [hothers] at hput

theorem Ranked.updated (uri : Text) :
    Updated digest known c ds uri text (c.update digest uri text).1 (c.update digest uri text).2.1
      (c.update digest uri text).2.2 := by
  cases hk : c.get? uri with
  | some k => exact h.updated_known hdigest hknown hk
  | none => exact h.updated_new hknown hk

end

end Cache

/-! ### Runs -/

theorem lastText?_append (calls : List Call) (k : Call) (uri : Text) :
    lastText? (calls ++ [k]) uri = (k.textFor? uri).or (lastText? calls uri) := by
  rw [lastText?, List.filterMap_append, List.getLast?_append, lastText?]
  cases hk : k.textFor? uri <;> simp [hk]

theorem without_entries (ds : List Document) (uri : Text) :
    Roll.without (ds.map Document.entry) uri = (ds.filter (·.uri != uri)).map Document.entry := List.filter_map

theorem update_entries (ds : List Document) (uri text : Text) :
    Roll.update (ds.map Document.entry) uri text = (uri, text) :: (Cache.staying ds uri).map Document.entry := by
  have hany : (ds.map Document.entry).any (·.1 == uri) = ds.any (·.uri == uri) := List.any_map
  rw [Roll.update, Cache.staying, hany, without_entries, List.length_map, ← List.map_dropLast]
  split
  · rfl
  · split <;> rfl

/-- The cache after some calls is ranked like the list after them, and holds what was brought last. -/
structure Cache.Follows (digest : Text → Digest) (known : Set Text) (c : Cache) (calls : List Call)
    (ds : List Document) : Prop where
  ranked : c.Ranked digest known ds
  entries : ds.map Document.entry = calls.foldl Roll.after []
  room : ds.length ≤ 100
  last : ∀ d ∈ ds, lastText? calls d.uri = some d.text
  counted : c.clock.toNat = calls.countP Call.isUpdate

namespace Cache.Follows
variable {digest : Text → Digest} {known : Set Text} {c : Cache} {calls : List Call} {ds : List Document}
  (h : c.Follows digest known calls ds)
include h

theorem update (hdigest : Set.InjOn digest known) (uri : Text) {text : Text} (hknown : text ∈ known)
    (hclock : calls.countP Call.isUpdate + 1 < UInt64.size) :
    ∃ ds', (c.after digest (.update uri text)).Follows digest known (calls ++ [.update uri text]) ds' := by
  have hupdated := h.ranked.updated hdigest hknown uri
  have hnext : (c.clock + 1).toNat = c.clock.toNat + 1 := by
    rw [UInt64.toNat_add, h.counted]
    exact Nat.mod_eq_of_lt hclock
  have hranked := hupdated.ranked (UInt64.lt_iff_toNat_lt.mpr (hnext ▸ Nat.lt_succ_self _))
  refine ⟨_, hranked, ?_, ?_, fun d hd => ?_, ?_⟩
  · rw [List.foldl_append, ← h.entries, List.map_cons]
    change _ = Roll.update _ uri text
    rw [update_entries, Document.entry, hupdated.uri_eq, hupdated.text_eq]
  · have hroom := h.room
    rw [List.length_cons, Cache.staying]
    split
    · rename_i hany
      obtain ⟨k, hk, huri⟩ := List.any_eq_true.mp hany
      have hlt := List.length_filter_lt_length_iff_exists (p := fun d : Document => d.uri != uri)
        |>.mpr ⟨k, hk, by simpa using huri⟩
      omega
    · split
      · rw [List.length_dropLast]
        omega
      · omega
  · rw [lastText?_append, Call.textFor?]
    rcases List.mem_cons.mp hd with rfl | hd
    · rw [if_pos hupdated.uri_eq.symm, hupdated.text_eq]
      rfl
    · have hne : uri ≠ d.uri := by
        have hapart := hranked.apart
        rw [List.map_cons, List.nodup_cons, hupdated.uri_eq] at hapart
        exact fun heq => hapart.1 (List.mem_map.mpr ⟨d, hd, heq.symm⟩)
      rw [if_neg hne, Option.none_or]
      refine h.last d ?_
      unfold Cache.staying at hd
      split at hd
      · exact (List.mem_filter.mp hd).1
      · split at hd
        · exact List.dropLast_subset ds hd
        · exact hd
  · change (c.update digest uri text).2.2.clock.toNat = _
    rw [hupdated.clock_eq, hnext, h.counted, List.countP_append, List.countP_singleton]
    rfl

theorem remove (uri : Text) :
    (c.after digest (.remove uri)).Follows digest known (calls ++ [.remove uri]) (ds.filter (·.uri != uri)) where
  ranked := h.ranked.remove uri
  entries := by
    rw [List.foldl_append, ← h.entries]
    exact (without_entries ds uri).symm
  room := Nat.le_trans (List.length_filter_le _ _) h.room
  last d hd := by
    rw [lastText?_append]
    exact h.last d (List.mem_filter.mp hd).1
  counted := by
    rw [List.countP_append]
    exact h.counted

theorem get (uri : Text) : (c.after digest (.get uri)).Follows digest known (calls ++ [.get uri]) ds where
  ranked := h.ranked
  entries := by
    rw [List.foldl_append, h.entries]
    rfl
  room := h.room
  last d hd := by
    rw [lastText?_append]
    exact h.last d hd
  counted := by
    rw [List.countP_append]
    exact h.counted

end Cache.Follows

/-- After any calls the cache holds what the list in order of use holds. -/
theorem Cache.follows {digest : Text → Digest} {known : Set Text} (hdigest : Set.InjOn digest known)
    (calls : List Call) (hknown : ∀ uri text, .update uri text ∈ calls → text ∈ known)
    (hclock : calls.countP Call.isUpdate < UInt64.size) :
    ∃ ds, (calls.foldl (Cache.after digest) .empty).Follows digest known calls ds := by
  induction calls using List.reverseRecOn with
  | nil =>
    exact ⟨[], ⟨⟨.refl _, .nil, nofun⟩, .nil, nofun⟩, rfl, Nat.zero_le _, nofun, rfl⟩
  | append_singleton calls k ih =>
    rw [List.countP_append] at hclock
    obtain ⟨ds, hds⟩ := ih (fun uri text hmem => hknown uri text (List.mem_append_left _ hmem)) (by omega)
    rw [List.foldl_append]
    cases k with
    | update uri text =>
      exact hds.update hdigest uri (hknown uri text (List.mem_append_right _ (List.mem_singleton_self _))) hclock
    | remove uri => exact ⟨_, hds.remove uri⟩
    | get uri => exact ⟨_, hds.get uri⟩

/-- A cache does what the list in order of use does. -/
structure Cache.Refines (digest : Text → Digest) (known : Set Text) (c : Cache) (r : Roll) (calls : List Call) :
    Prop where
  /-- The documents in the order of their last updates are the list. -/
  ordered : ∃ ds : List Document, ds.Perm c.documents ∧ (ds.Pairwise fun d e => e.touched < d.touched) ∧ ds.map Document.entry = r
  found : ∀ uri, (c.get? uri).map Document.entry = r.find? (·.1 == uri)
  bounded : c.size ≤ 100
  /-- What makes room is the last of the list, whatever order the documents are searched in. -/
  evicted : ∀ docs, docs.Perm c.documents →
    Cache.oldest? docs = Cache.oldest? c.documents ∧ (Cache.oldest? docs).map Document.entry = r.getLast?
  /-- Nothing makes room for a document that is there. -/
  undisturbed : ∀ uri, ∀ text ∈ known, (c.get? uri).isSome →
    ∀ d ∈ c.documents, d.uri ≠ uri → d ∈ (c.update digest uri text).2.2.documents
  current : ∀ d ∈ c.documents, lastText? calls d.uri = some d.text ∧ d.complaints = diagnose d.text
  answered : ∀ uri, ∀ text ∈ known,
    (c.update digest uri text).2.2.get? uri = some (c.update digest uri text).1 ∧
      ((c.update digest uri text).2.1 = false ↔ ∃ d, c.get? uri = some d ∧ d.text = text)

/-- After any calls, the cache does what the list in order of use does, if no two of the texts that are brought or
may come next have one digest, and the updates do not wear out the clock. -/
theorem cache_refines {digest : Text → Digest} {known : Set Text} (hdigest : Set.InjOn digest known) {calls : List Call}
    (hknown : ∀ uri text, .update uri text ∈ calls → text ∈ known)
    (hclock : calls.countP Call.isUpdate < UInt64.size) :
    (calls.foldl (Cache.after digest) .empty).Refines digest known (calls.foldl Roll.after []) calls := by
  obtain ⟨ds, h⟩ := Cache.follows hdigest calls hknown hclock
  have hfind : ∀ {r : Roll}, ds.map Document.entry = r → ∀ uri,
      (ds.find? (·.uri == uri)).map Document.entry = r.find? (·.1 == uri) := by
    rintro _ rfl uri
    rw [List.find?_map]
    rfl
  refine ⟨⟨ds, h.ranked.same, h.ranked.falling, h.entries⟩, fun uri => ?_, ?_, fun docs hdocs => ?_,
    fun uri text htext hsome d hd hne => ?_, fun d hd => ?_, fun uri text htext => ?_⟩
  · rw [h.ranked.get?_eq, hfind h.entries]
  · rw [h.ranked.size_eq]
    exact h.room
  · rw [h.ranked.oldest?_eq (hdocs.trans h.ranked.same.symm), h.ranked.oldest?_eq h.ranked.same.symm, ← h.entries,
      List.getLast?_map]
    exact ⟨rfl, rfl⟩
  · have hheld := (h.ranked.updated hdigest htext uri).held
    obtain ⟨k, hk⟩ := Option.isSome_iff_exists.mp hsome
    rw [h.ranked.staying_eq hk] at hheld
    refine hheld.same.mem_iff.mp (List.mem_cons_of_mem _ (List.mem_filter.mpr ⟨?_, bne_iff_ne.mpr hne⟩))
    exact h.ranked.same.mem_iff.mpr hd
  · have hmem := h.ranked.same.mem_iff.mpr hd
    exact ⟨h.last d hmem, (h.ranked.sound d hmem).checked⟩
  · have hupdated := h.ranked.updated hdigest htext uri
    refine ⟨hupdated.held.get?_eq_some.mpr ⟨List.mem_cons_self, hupdated.uri_eq⟩, ?_⟩
    simp only [hupdated.stale, h.ranked.get?_eq_some, and_assoc]

/-- Two texts for an address, one for another, and the first address again. -/
def sampleCalls : List Call := [.update "a" "x", .update "b" "y", .get "b", .update "a" "y"]

theorem cache_refines_sample :
    (sampleCalls.foldl (Cache.after Text.bytes) .empty).Refines Text.bytes {t | t = "x" ∨ t = "y"} [("a", "y"), ("b", "y")]
      sampleCalls := by
  have hdigest : Set.InjOn Text.bytes {t | t = "x" ∨ t = "y"} := by
    rintro t (rfl | rfl) u (rfl | rfl) h
    · rfl
    · exact absurd h (by decide)
    · exact absurd h (by decide)
    · rfl
  have hknown : ∀ uri text, .update uri text ∈ sampleCalls → text ∈ {t : Text | t = "x" ∨ t = "y"} := by
    simp only [sampleCalls]
    grind
  exact cache_refines hdigest hknown (by decide)

end Anadil.Editor

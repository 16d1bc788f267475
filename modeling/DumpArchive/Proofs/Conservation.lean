import DumpArchive.Proofs.Accounting
import DumpArchive.Proofs.ListUpdates

/-! Whatever moves are made, the books stay in order: the handles and the registry agree, each
record is where it should be, and the summary is that of the wire. -/
namespace DumpArchive.Multiplexer.Traffic

/-- The producers of all handles, as the registry has them. -/
def labels (t : Traffic) : List (Namespace × Nat) := t.handles.map fun h => (h.ns, h.number)

theorem namespaces_labels (t : Traffic) : t.labels.map (·.1) = t.handles.map (·.ns) := by
  simp [labels, Function.comp_def]

structure Accounted (t : Traffic) (max : UInt64) (w : Wire) : Prop where
  tracks : t.exchange.engine.Tracks w
  limit : t.exchange.engine.writer.max = max
  present : t.exchange.phase ≠ .dropped
  kept : ∀ h ∈ t.handles, h.Kept (h.sight t.exchange w)
  numbered : t.labels.map (·.2) = List.range t.labels.length
  distinct : (t.labels.map (·.1)).Nodup
  named : ∀ label ∈ t.labels, label.1.isNamed
  next : t.exchange.engine.nextProducer = t.labels.length
  owned : ∀ e ∈ t.exchange.engine.registry.entries, e ∈ t.labels
  known : ∀ b ∈ w.blocks, b.header.ns ∈ t.labels.map (·.1)
  formed : ∀ event ∈ t.exchange.mailbox, event.Formed max
  mailed : ∀ event ∈ t.exchange.mailbox, event.producer < t.labels.length
  acked : ∀ a ∈ t.exchange.acks, a.1 < t.labels.length
  home : (∀ e, t.outcomes.head? ≠ some (.error e)) → ∀ label ∈ t.labels,
    label ∈ t.exchange.engine.registry.entries ∨ label.1 ∈ t.exchange.engine.registry.closed
  finished : t.exchange.engine.registry.finished ↔ t.outcomes ≠ []
  summary : t.summary = Summary.ofBlocks w.blocks

variable {t : Traffic} {max : UInt64} {w : Wire} {h k : Handle} {index : Nat}

theorem accounted_start (writer : Token.Writer) (cap : Option UInt64) :
    (start writer cap).Accounted writer.max .empty where
  tracks := tracks_start writer cap
  limit := rfl
  present := by simp [start, Exchange.start]
  kept := by simp [start]
  numbered := rfl
  distinct := List.nodup_nil
  named := by simp [start, labels]
  next := rfl
  owned := by simp [start, Exchange.start, Multiplexer.start, Registry.empty]
  known := by simp [Wire.empty, Wire.blocks]
  formed := by simp [start, Exchange.start]
  mailed := by simp [start, Exchange.start]
  acked := by simp [start, Exchange.start]
  home := by simp [start, labels]
  finished := by simp [start, Exchange.start, Multiplexer.start, Registry.empty]
  summary := rfl

theorem Accounted.number_eq (accounted : t.Accounted max w) (found : t.handles[index]? = some h) :
    h.number = index := by
  have place : (t.labels.map (·.2))[index]? = some h.number := by simp [labels, found]
  rw [accounted.numbered] at place
  obtain ⟨bound, here⟩ := List.getElem?_eq_some_iff.1 place
  simpa using here.symm

theorem Accounted.number_lt (accounted : t.Accounted max w) (member : h ∈ t.handles) :
    h.number < t.labels.length := by
  obtain ⟨i, here⟩ := List.mem_iff_getElem?.1 member
  rw [accounted.number_eq here, labels, List.length_map]
  exact (List.getElem?_eq_some_iff.1 here).1

theorem Accounted.eq_of_number (accounted : t.Accounted max w) (first : h ∈ t.handles)
    (second : k ∈ t.handles) (same : h.number = k.number) : h = k := by
  obtain ⟨i, here⟩ := List.mem_iff_getElem?.1 first
  obtain ⟨j, there⟩ := List.mem_iff_getElem?.1 second
  rw [accounted.number_eq here, accounted.number_eq there] at same
  exact Option.some.inj (here.symm.trans (same ▸ there))

theorem Accounted.eq_of_ns (accounted : t.Accounted max w) (first : h ∈ t.handles)
    (second : k ∈ t.handles) (same : h.ns = k.ns) : h = k := by
  have distinct := accounted.distinct
  rw [labels, List.map_map] at distinct
  exact List.inj_on_of_nodup_map distinct first second same

theorem Accounted.owner {number : Nat} {ns : Namespace} (accounted : t.Accounted max w)
    (member : (ns, number) ∈ t.exchange.engine.registry.entries) :
    ∃ h ∈ t.handles, h.ns = ns ∧ h.number = number := by
  obtain ⟨h, held, same⟩ := List.mem_map.1 (accounted.owned _ member)
  exact ⟨h, held, Prod.mk.inj same⟩

theorem labels_set {after : Handle} (found : t.handles[index]? = some h)
    (number : after.number = h.number) (ns : after.ns = h.ns) :
    (t.set index after).labels = t.labels := map_set_same found (by rw [number, ns])

/-- The other handles of a list in which one has been replaced. -/
theorem Accounted.mem_set {after : Handle} (accounted : t.Accounted max w)
    (found : t.handles[index]? = some h) (member : k ∈ t.handles.set index after) :
    k = after ∨ (k ∈ t.handles ∧ k.number ≠ h.number) := by
  obtain ⟨j, here⟩ := List.mem_iff_getElem?.1 member
  rcases getElem?_set_cases here with ⟨-, same⟩ | ⟨apart, old⟩
  · exact .inl same
  · refine .inr ⟨List.mem_of_getElem? old, ?_⟩
    rw [accounted.number_eq old, accounted.number_eq found]
    exact apart

/-- One handle and its part of the mail change; all others see nothing of it. -/
theorem Accounted.set {after : Handle} {mailbox : List Event} {acks : List (Nat × Nat)}
    (accounted : t.Accounted max w) (found : t.handles[index]? = some h)
    (number : after.number = h.number) (ns : after.ns = h.ns)
    (own : after.Kept (after.sight { t.exchange with mailbox, acks } w))
    (others : ∀ other : Handle, other.number ≠ h.number →
      other.sight { t.exchange with mailbox, acks } w = other.sight t.exchange w)
    (mail : ∀ event ∈ mailbox, event ∈ t.exchange.mailbox ∨
      event.Formed max ∧ event.producer = h.number)
    (answers : ∀ a ∈ acks, a ∈ t.exchange.acks) :
    ({ t with exchange := { t.exchange with mailbox, acks } }.set index after).Accounted max w := by
  have names := labels_set (t := { t with exchange := { t.exchange with mailbox, acks } })
    found number ns
  refine ⟨accounted.tracks, accounted.limit, accounted.present, ?_, ?_, ?_, ?_, ?_, ?_, ?_, ?_, ?_,
    ?_, ?_, accounted.finished, accounted.summary⟩
  · intro k member
    rcases accounted.mem_set found member with rfl | ⟨held, apart⟩
    · exact own
    · change k.Kept (k.sight { t.exchange with mailbox, acks } w)
      rw [others k apart]
      exact accounted.kept k held
  · rw [names]
    exact accounted.numbered
  · rw [names]
    exact accounted.distinct
  · rw [names]
    exact accounted.named
  · rw [names]
    exact accounted.next
  · rw [names]
    exact accounted.owned
  · rw [names]
    exact accounted.known
  · intro event member
    rcases mail event member with old | ⟨formed, -⟩
    · exact accounted.formed event old
    · exact formed
  · rw [names]
    intro event member
    rcases mail event member with old | ⟨-, mine⟩
    · exact accounted.mailed event old
    · rw [mine]
      exact accounted.number_lt (List.mem_of_getElem? found)
  · rw [names]
    exact fun a member => accounted.acked a (answers a member)
  · rw [names]
    exact accounted.home

theorem Accounted.write (accounted : t.Accounted max w) (index : Nat) (record : Bytes) :
    (t.write index record).Accounted max w := by
  unfold Traffic.write
  split
  · exact accounted
  · next h found =>
    have kept := accounted.kept h (List.mem_of_getElem? found)
    split
    · next free =>
      split
      · next e refused =>
        exact accounted.set found rfl rfl (kept.rejected free) (fun _ _ => rfl)
          (fun event member => .inl member) (fun a member => member)
      · next passed =>
        have formed : Record.Formed max record := accounted.limit ▸ Record.check_eq_ok_iff.1 passed
        have posted : t.exchange.post? (.record h.number record) =
            some { t.exchange with mailbox := t.exchange.mailbox ++ [.record h.number record] } := by
          have present := accounted.present
          unfold Exchange.post?
          split <;> simp_all
        rw [posted]
        refine accounted.set found rfl rfl ?_ ?_ ?_ (fun a member => member)
        · have after := kept.posted free record
          simpa [Handle.sight, sent_concat_record] using after
        · intro other apart
          have quiet : sent other.number (t.exchange.mailbox ++ [.record h.number record]) =
              sent other.number t.exchange.mailbox := sent_concat_other (Ne.symm apart)
          simp [Handle.sight, quiet]
        · intro event member
          rcases List.mem_append.1 member with old | new
          · exact .inl old
          · obtain rfl := by simpa using new
            exact .inr ⟨formed, rfl⟩
    · exact accounted

theorem Accounted.post_closed (accounted : t.Accounted max w) (number : Nat) :
    t.exchange.post? (.closed number) =
      some { t.exchange with mailbox := t.exchange.mailbox ++ [.closed number] } := by
  have present := accounted.present
  unfold Exchange.post?
  split <;> simp_all

theorem Accounted.release (accounted : t.Accounted max w) (index : Nat) :
    (t.release index).Accounted max w := by
  unfold Traffic.release
  split
  · exact accounted
  · next h found =>
    have kept := accounted.kept h (List.mem_of_getElem? found)
    split
    · next free =>
      rw [accounted.post_closed]
      refine accounted.set found rfl rfl ?_ ?_ ?_ (fun a member => member)
      · have after := kept.released free
        simpa [Handle.sight, sent_concat_closed] using after
      · intro other apart
        simp [Handle.sight, sent_concat_closed, apart]
      · intro event member
        rcases List.mem_append.1 member with old | new
        · exact .inl old
        · obtain rfl := by simpa using new
          exact .inr ⟨trivial, rfl⟩
    · exact accounted

/-- While a producer is registered, the answer to its write is its acknowledgement. -/
theorem answer?_eq {x : Exchange} (number : Nat) (ns : Namespace) :
    x.answer? number ns = match acked number x.acks with
      | size :: _ => (some (.ok size), { x with acks := x.acks.filter (·.1 ≠ number) })
      | [] =>
        if (x.engine.namespaceOf? number).isSome then (none, x)
        else (some (.error (.engineGone ns.shown)), x) := by
  have found := find?_acks number x.acks
  unfold Exchange.answer?
  cases own : acked number x.acks with
  | nil =>
    have none : x.acks.find? (·.1 = number) = none := by simpa [own] using found
    simp [none]
  | cons size rest =>
    obtain ⟨a, some, rfl⟩ : ∃ a, x.acks.find? (·.1 = number) = some a ∧ a.2 = size := by
      simpa [own] using found
    simp [some]

theorem Accounted.collect (accounted : t.Accounted max w) (index : Nat) :
    (t.collect index).Accounted max w := by
  unfold Traffic.collect
  split
  · exact accounted
  · next h found =>
    have member := List.mem_of_getElem? found
    have kept := accounted.kept h member
    split
    · exact accounted
    · next record pending =>
      rw [answer?_eq]
      rcases kept.collected pending with ⟨size, rest, one, after⟩ | ⟨nothing, gone⟩
      · have one : Multiplexer.acked h.number t.exchange.acks = size :: rest := one
        simp only [one]
        refine accounted.set found rfl rfl ?_ ?_ (fun event member => .inl member) ?_
        · simp only [Handle.sight, Handle.answer, acked_self_fetched]
          exact after
        · intro other apart
          simp only [Handle.sight, acked_fetched apart]
        · exact fun a member => List.mem_of_mem_filter member
      · have nothing : Multiplexer.acked h.number t.exchange.acks = [] := nothing
        simp only [nothing]
        split
        · next waits =>
          split at waits
          · exact accounted
          · simp at waits
        · next reply exchange learns =>
          split at learns
          · simp at learns
          · next unknown =>
            obtain ⟨rfl, rfl⟩ := by simpa using learns
            refine accounted.set found rfl rfl (gone ?_ _) (fun _ _ => rfl)
              (fun event member => .inl member) (fun a member => member)
            have none : t.exchange.engine.namespaceOf? h.number = none := by simpa using unknown
            have absent := namespaceOf?_eq_none_iff.1 none
            exact fun member => absent _ member rfl

theorem Accounted.run (accounted : t.Accounted max w) : t.run.Accounted max w := by
  unfold Traffic.run
  split
  · exact { accounted with present := by simp [Exchange.run] }
  · exact { accounted with present := by simp [Exchange.run] }
  · exact accounted

/-- One more handle. -/
def enroll (ns : Namespace) (t : Traffic) : Traffic :=
  { t with
    exchange := { t.exchange with engine := t.exchange.engine.enroll ns }
    handles := t.handles ++ [.fresh t.exchange.engine.nextProducer ns] }

@[simp] theorem engine_enroll (ns : Namespace) (t : Traffic) :
    (t.enroll ns).exchange.engine = t.exchange.engine.enroll ns := rfl

@[simp] theorem labels_enroll (ns : Namespace) (t : Traffic) :
    (t.enroll ns).labels = t.labels ++ [(ns, t.exchange.engine.nextProducer)] := by
  simp [labels, enroll, Handle.fresh]

theorem register_cases (ns : Namespace) (t : Traffic) :
    t.register ns = t ∨ t.exchange.engine.registry.Admits ns ∧ t.register ns = t.enroll ns := by
  unfold Traffic.register
  split
  · exact .inl rfl
  · next number exchange opened =>
    obtain ⟨admits, rfl, rfl⟩ := Exchange.open?_eq_ok_iff.1 opened
    exact .inr ⟨admits, rfl⟩

/-- A namespace that has a handle is registered or closed, so it gets no other one. -/
theorem Accounted.unlabelled {ns : Namespace} (accounted : t.Accounted max w)
    (admits : t.exchange.engine.registry.Admits ns) : ns ∉ t.labels.map (·.1) := by
  have clean : t.outcomes = [] := by
    by_contra ended
    have past := accounted.finished.2 ended
    simp [admits.going] at past
  intro old
  obtain ⟨label, held, rfl⟩ := List.mem_map.1 old
  rcases accounted.home (by simp [clean]) label held with here | closed
  · exact admits.unused (List.mem_map_of_mem here)
  · exact admits.fresh closed

/-- Nothing has been heard of a handle that is new. -/
theorem Accounted.fresh {ns : Namespace} (accounted : t.Accounted max w)
    (admits : t.exchange.engine.registry.Admits ns) :
    (Handle.fresh t.exchange.engine.nextProducer ns).Kept
      ((Handle.fresh t.exchange.engine.nextProducer ns).sight (t.enroll ns).exchange w) := by
  have next := accounted.next
  apply Handle.Kept.fresh
  · apply sent_eq_nil
    intro event posted
    have less := accounted.mailed event posted
    simp only [Handle.fresh]
    omega
  · apply acked_eq_nil
    intro a told
    have less := accounted.acked a told
    simp only [Handle.fresh]
    omega
  · intro posted
    have less := accounted.mailed _ posted
    rw [Event.producer_closed] at less
    simp only [Handle.fresh] at less
    omega
  · exact admits.fresh
  · apply Block.recordsOf_eq_nil
    rintro ⟨b, written, same, -⟩
    have same : b.header.ns = ns := same
    exact accounted.unlabelled admits (same ▸ accounted.known b written)

theorem Accounted.enroll {ns : Namespace} (accounted : t.Accounted max w)
    (admits : t.exchange.engine.registry.Admits ns) : (t.enroll ns).Accounted max w := by
  have next := accounted.next
  have unlabelled := accounted.unlabelled admits
  refine ⟨accounted.tracks.enroll admits, accounted.limit, accounted.present, ?_, ?_, ?_, ?_, ?_,
    ?_, ?_, accounted.formed, ?_, ?_, ?_, accounted.finished, accounted.summary⟩
  · intro h member
    rcases List.mem_append.1 member with old | new
    · have same : h.sight (t.enroll ns).exchange w = h.sight t.exchange w := by
        have less := accounted.number_lt old
        have apart : h.number ≠ t.exchange.engine.nextProducer := by omega
        simp [Handle.sight, Traffic.enroll, apart]
      rw [same]
      exact accounted.kept h old
    · obtain rfl := by simpa using new
      exact accounted.fresh admits
  · simp [accounted.numbered, next, List.range_succ]
  · simpa [List.nodup_append] using ⟨accounted.distinct, fun k number held same =>
      unlabelled (same ▸ List.mem_map_of_mem held)⟩
  · simpa [or_imp, forall_and, admits.named] using accounted.named
  · simp [next]
  · intro e member
    rw [labels_enroll]
    rcases List.mem_append.1 member with old | new
    · exact List.mem_append_left _ (accounted.owned e old)
    · exact List.mem_append_right _ new
  · intro b written
    rw [labels_enroll, List.map_append]
    exact List.mem_append_left _ (accounted.known b written)
  · intro event posted
    rw [labels_enroll, List.length_append]
    exact Nat.lt_add_right _ (accounted.mailed event posted)
  · intro a told
    rw [labels_enroll, List.length_append]
    exact Nat.lt_add_right _ (accounted.acked a told)
  · intro fine label member
    rw [labels_enroll] at member
    rcases List.mem_append.1 member with old | new
    · rcases accounted.home fine label old with here | closed
      · exact .inl (List.mem_append_left _ here)
      · exact .inr closed
    · exact .inl (List.mem_append_right _ new)

theorem Accounted.register (accounted : t.Accounted max w) (ns : Namespace) :
    (t.register ns).Accounted max w := by
  rcases register_cases ns t with refused | ⟨admits, enrolled⟩
  · rw [refused]
    exact accounted
  · rw [enrolled]
    exact accounted.enroll admits

/-- Taking an event out of the mailbox is no concern of other producers. -/
theorem mail_tail {x : Exchange} {event : Event} {rest : List Event}
    (posted : x.mailbox = event :: rest) (other : k.number ≠ event.producer) :
    sent k.number rest = sent k.number x.mailbox ∧
      (Event.closed k.number ∈ rest ↔ Event.closed k.number ∈ x.mailbox) := by
  rw [posted, sent_cons_other (Ne.symm other), List.mem_cons]
  refine ⟨rfl, .inr, ?_⟩
  rintro (same | later)
  · rw [← same] at other
    exact absurd rfl other
  · exact later

/-- While anyone is registered no run has ended. -/
theorem Accounted.clean {e : Namespace × Nat} (accounted : t.Accounted max w)
    (member : e ∈ t.exchange.engine.registry.entries) : t.outcomes = [] := by
  by_contra ended
  have nobody := accounted.tracks.stopped (accounted.finished.2 ended)
  simp [nobody] at member

theorem Accounted.ignored {event : Event} {rest : List Event} (accounted : t.Accounted max w)
    (posted : t.exchange.mailbox = event :: rest)
    (unknown : t.exchange.engine.namespaceOf? event.producer = none) :
    ({ t with exchange := { t.exchange with mailbox := rest } } : Traffic).Accounted max w := by
  have old {e : Event} (later : e ∈ rest) : e ∈ t.exchange.mailbox := by
    rw [posted]
    exact List.mem_cons_of_mem _ later
  refine { accounted with kept := ?_, formed := ?_, mailed := ?_ }
  · intro k member
    have kept := accounted.kept k member
    by_cases mine : k.number = event.producer
    · refine kept.unregistered ?_ rfl old rfl rfl
      exact fun entry => namespaceOf?_eq_none_iff.1 unknown _ entry mine
    · obtain ⟨sent, closing⟩ := mail_tail posted mine
      simpa only [Handle.sight, sent, closing] using kept
  · exact fun e later => accounted.formed e (old later)
  · exact fun e later => accounted.mailed e (old later)

theorem Accounted.added {producer : Nat} {bytes : Bytes} {rest : List Event} {ns : Namespace}
    {writer : Token.Writer} (accounted : t.Accounted max w)
    (posted : t.exchange.mailbox = .record producer bytes :: rest)
    (entry : (ns, producer) ∈ t.exchange.engine.registry.entries)
    (limit : writer.max = max)
    (tracks : ({ t.exchange.engine with
      writer, current := some ns
      summary := t.exchange.engine.summary.count ns bytes } : Multiplexer).Tracks (w.add ns bytes)) :
    ({ t with exchange := { t.exchange with
      engine := { t.exchange.engine with
        writer, current := some ns, summary := t.exchange.engine.summary.count ns bytes }
      mailbox := rest
      acks := t.exchange.acks ++ [(producer, bytes.length)] } } : Traffic).Accounted max
      (w.add ns bytes) := by
  have old {e : Event} (later : e ∈ rest) : e ∈ t.exchange.mailbox := by
    rw [posted]
    exact List.mem_cons_of_mem _ later
  -- the record moves from the mailbox to the wire and the size to its owner; nobody else sees it
  obtain ⟨h, held, rfl, rfl⟩ := accounted.owner entry
  have clean := accounted.clean entry
  refine ⟨tracks, limit, accounted.present, ?_, accounted.numbered, accounted.distinct,
    accounted.named, accounted.next, accounted.owned, ?_, fun e later => accounted.formed e (old later),
    fun e later => accounted.mailed e (old later), ?_, accounted.home, accounted.finished, ?_⟩
  · intro k member
    have kept := accounted.kept k member
    by_cases mine : k.number = h.number
    · obtain rfl := accounted.eq_of_number member held mine
      have front : (k.sight t.exchange w).sent = bytes :: sent k.number rest := by
        simp only [Handle.sight, posted, sent_cons_record]
      have after := kept.added entry front
      simpa [Handle.sight, posted, acked_concat, Wire.recordsOf_add] using after
    · have elsewhere : h.ns ≠ k.ns := fun same =>
        mine (by rw [accounted.eq_of_ns held member same])
      obtain ⟨sent, closing⟩ := mail_tail posted mine
      simpa [Handle.sight, sent, closing, acked_concat, Wire.recordsOf_add, elsewhere,
        Ne.symm mine] using kept
  · intro b written
    rcases Wire.ns_of_mem_add written with same | ⟨earlier, stood, same⟩
    · rw [same]
      exact List.mem_map_of_mem (accounted.owned _ entry)
    · rw [← same]
      exact accounted.known earlier stood
  · intro a told
    rcases List.mem_append.1 told with earlier | new
    · exact accounted.acked a earlier
    · obtain rfl := by simpa using new
      exact accounted.number_lt held
  · have before := accounted.summary
    simp only [Traffic.summary, clean, List.findSome?_nil, Option.getD_none] at before ⊢
    rw [Wire.ofBlocks_add accounted.tracks.tidy.ongoing, before]

theorem Accounted.ended {producer : Nat} {rest : List Event} {ns : Namespace}
    {writer : Token.Writer} (accounted : t.Accounted max w)
    (posted : t.exchange.mailbox = .closed producer :: rest)
    (entry : (ns, producer) ∈ t.exchange.engine.registry.entries)
    (limit : writer.max = max)
    (tracks : ({ t.exchange.engine with
      writer, current := none, registry := t.exchange.engine.registry.close ns
      summary := t.exchange.engine.summary.touch ns } : Multiplexer).Tracks (w.close ns)) :
    ({ t with exchange := { t.exchange with
      engine := { t.exchange.engine with
        writer, current := none, registry := t.exchange.engine.registry.close ns
        summary := t.exchange.engine.summary.touch ns }
      mailbox := rest } } : Traffic).Accounted max (w.close ns) := by
  have old {e : Event} (later : e ∈ rest) : e ∈ t.exchange.mailbox := by
    rw [posted]
    exact List.mem_cons_of_mem _ later
  obtain ⟨h, held, rfl, rfl⟩ := accounted.owner entry
  have clean := accounted.clean entry
  refine ⟨tracks, limit, accounted.present, ?_, accounted.numbered, accounted.distinct,
    accounted.named, accounted.next, ?_, ?_, fun e later => accounted.formed e (old later),
    fun e later => accounted.mailed e (old later), accounted.acked, ?_, accounted.finished, ?_⟩
  · intro k member
    have kept := accounted.kept k member
    by_cases mine : k.number = h.number
    · obtain rfl := accounted.eq_of_number member held mine
      have ends : (k.sight t.exchange w).closing := by simp [Handle.sight, posted]
      have after := kept.ended ends (sent k.number rest) (.closed k.number ∈ rest)
      simpa [Handle.sight, Registry.close, Wire.recordsOf_close] using after
    · have elsewhere : k.ns ≠ h.ns := fun same =>
        mine (by rw [accounted.eq_of_ns member held same])
      obtain ⟨sent, closing⟩ := mail_tail posted mine
      simpa only [Handle.sight, sent, closing, Registry.close, Wire.recordsOf_close, List.mem_filter,
        List.mem_cons, elsewhere, ne_eq, not_false_eq_true, decide_true, and_true, false_or] using kept
  · intro e left
    exact accounted.owned e (List.mem_of_mem_filter left)
  · intro b written
    rw [Wire.blocks_close] at written
    rcases List.mem_append.1 written with earlier | new
    · exact accounted.known b earlier
    · obtain rfl := by simpa using new
      exact List.mem_map_of_mem (accounted.owned _ entry)
  · intro fine label member
    by_cases same : label.1 = h.ns
    · exact .inr (by simp [Registry.close, same])
    · rcases accounted.home fine label member with here | closed
      · exact .inl (List.mem_filter.2 ⟨here, by simpa using same⟩)
      · exact .inr (List.mem_cons_of_mem _ closed)
  · have before := accounted.summary
    simp only [Traffic.summary, clean, List.findSome?_nil, Option.getD_none] at before ⊢
    rw [Wire.ofBlocks_close, before]

theorem Accounted.finish {result : Except FrameError Summary} {engine : Multiplexer}
    (accounted : t.Accounted max w) (nobody : t.exchange.engine.registry.entries = [])
    (ended : t.exchange.engine.finish = (result, engine)) :
    ({ t with
      exchange := { t.exchange with engine, phase := .stopped result }
      outcomes := t.outcomes ++ [result] } : Traffic).Accounted max w := by
  have tracks := accounted.tracks.finish nobody ended
  have limit := t.exchange.engine.writer.max_flush
  have kept (registry : Registry Nat) (entries : registry.entries = [])
      (closed : registry.closed = t.exchange.engine.registry.closed) :
      ∀ h ∈ t.handles, h.Kept { h.sight t.exchange w with
        registered := (h.ns, h.number) ∈ registry.entries, past := h.ns ∈ registry.closed } := by
    intro h member
    refine (accounted.kept h member).unregistered ?_ rfl id ?_ rfl
    · simp [entries]
    · simp [Handle.sight, closed]
  have home : (∀ e, (t.outcomes ++ [result]).head? ≠ some (.error e)) → ∀ label ∈ t.labels,
      label ∈ ([] : List (Namespace × Nat)) ∨ label.1 ∈ t.exchange.engine.registry.closed := by
    intro fine label member
    refine .inr ((accounted.home ?_ label member).resolve_left (by simp [nobody]))
    intro e first
    exact fine e (by simp [List.head?_append, first])
  have before := accounted.summary
  simp only [Traffic.summary] at before
  simp only [Multiplexer.finish] at ended
  split at ended
  · next e writer flushed =>
    obtain ⟨rfl, rfl⟩ := Prod.mk.inj ended
    rw [flushed] at limit
    refine ⟨tracks, limit.trans accounted.limit, by simp, kept _ rfl rfl, accounted.numbered,
      accounted.distinct, accounted.named, accounted.next, by simp [Registry.abandon], accounted.known,
      accounted.formed, accounted.mailed, accounted.acked, home, by simp [Registry.abandon], ?_⟩
    simpa [Traffic.summary, List.findSome?_append, Except.toOption] using before
  · next writer flushed =>
    obtain ⟨rfl, rfl⟩ := Prod.mk.inj ended
    rw [flushed] at limit
    refine ⟨tracks, limit.trans accounted.limit, by simp, kept _ nobody rfl, accounted.numbered,
      accounted.distinct, accounted.named, accounted.next, by simp [Registry.finish, nobody], accounted.known,
      accounted.formed, accounted.mailed, accounted.acked, ?_, by simp [Registry.finish], ?_⟩
    · intro fine label member
      simpa [Registry.finish, nobody] using home fine label member
    · cases earlier : t.outcomes.findSome? Except.toOption with
      | none => simpa [Traffic.summary, List.findSome?_append, earlier, Except.toOption] using before
      | some s => simpa [Traffic.summary, List.findSome?_append, earlier] using before

theorem Accounted.fail {event : Event} {rest : List Event} {e : FrameError} {engine : Multiplexer}
    (accounted : t.Accounted max w) (posted : t.exchange.mailbox = event :: rest)
    (handled : Handled t.exchange.engine event (.error e) engine) :
    ({ t with
      exchange := { t.exchange with
        engine := engine.abandon, mailbox := rest, phase := .stopped (.error e) }
      outcomes := t.outcomes ++ [.error e] } : Traffic).Accounted max w.terminate := by
  have old {e : Event} (later : e ∈ rest) : e ∈ t.exchange.mailbox := by
    rw [posted]
    exact List.mem_cons_of_mem _ later
  have tracks := accounted.tracks.fail handled
  have before := accounted.summary
  cases handled with
  | failed known limit clean =>
    have none := accounted.clean (mem_of_namespaceOf? known)
    refine ⟨tracks, limit.trans accounted.limit, by simp, ?_, accounted.numbered,
      accounted.distinct, accounted.named, accounted.next, by simp [abandon, Registry.abandon], ?_,
      fun e later => accounted.formed e (old later), fun e later => accounted.mailed e (old later),
      accounted.acked, by simp [none], by simp [abandon, Registry.abandon], ?_⟩
    · intro k member
      refine (accounted.kept k member).unregistered ?_ rfl old rfl ?_
      · simp [Handle.sight, abandon, Registry.abandon]
      · simp [Handle.sight]
    · rw [Wire.blocks_terminate]
      exact accounted.known
    · simpa [Traffic.summary, none, abandon, Except.toOption] using before

theorem turn_of_stopped {result : Except FrameError Summary}
    (running : t.exchange.phase = .running) (stopped : t.exchange.step.phase = .stopped result) :
    t.turn = { t with exchange := t.exchange.step, outcomes := t.outcomes ++ [result] } := by
  simp [Traffic.turn, running, stopped]

theorem turn_of_same (same : t.exchange.step.phase = t.exchange.phase) :
    t.turn = { t with exchange := t.exchange.step } := by
  unfold Traffic.turn
  simp only
  split
  · next running stopped => simp [running, stopped] at same
  · rfl

/-- A turn of the engine, and what it does to the wire. -/
theorem Accounted.turn (accounted : t.Accounted max w) :
    ∃ after, Turned t.exchange w t.exchange.step after ∧ t.turn.Accounted max after := by
  obtain ⟨after, turned⟩ := Multiplexer.turned t.exchange w
  refine ⟨after, turned, ?_⟩
  generalize stepped : t.exchange.step = next at turned
  cases turned with
  | still waits =>
    rw [turn_of_same (by rw [stepped]), stepped]
    exact accounted
  | finished running nobody ended =>
    rw [turn_of_stopped running (by rw [stepped]), stepped]
    exact accounted.finish nobody ended
  | @handled event rest ack engine running posted handled =>
    have tracks := accounted.tracks.handle handled
    rw [turn_of_same (by rw [stepped]), stepped]
    cases handled with
    | ignored unknown =>
      simp only [onWire, unknown, Option.toList_none, List.append_nil]
      exact accounted.ignored posted unknown
    | added known formed wrote =>
      simp only [onWire, Event.producer_record, known] at tracks ⊢
      exact accounted.added posted (mem_of_namespaceOf? known) (wrote.limit.trans accounted.limit)
        tracks
    | ended known formed wrote =>
      simp only [onWire, Event.producer_closed, known, Option.toList_none, List.append_nil]
        at tracks ⊢
      exact accounted.ended posted (mem_of_namespaceOf? known) (wrote.limit.trans accounted.limit)
        tracks
  | failed running posted handled =>
    rw [turn_of_stopped running (by rw [stepped]), stepped]
    exact accounted.fail posted handled

/-- Nobody is registered after a run, so no block goes on. -/
theorem Accounted.whole (accounted : t.Accounted max w) (ended : t.outcomes ≠ []) :
    t.exchange.engine.registry.entries = [] ∧ w.unfinished = none := by
  have nobody := accounted.tracks.stopped (accounted.finished.2 ended)
  refine ⟨nobody, ?_⟩
  cases unfinished : w.unfinished with
  | none => rfl
  | some b =>
    have served := accounted.tracks.ongoing b unfinished
    simp [Registry.keys, nobody] at served

/-- Where all namespaces have been closed, the blocks are a sequence for them. -/
theorem Accounted.sequence (accounted : t.Accounted max w)
    (closed : ∀ label ∈ t.labels, label.1 ∈ t.exchange.engine.registry.closed) :
    Block.Sequence (t.handles.map (·.ns)) w.blocks := by
  have tracks := accounted.tracks
  rw [← t.namespaces_labels]
  refine ⟨accounted.known, fun b member => (tracks.tidy.filled b member).1, tracks.tidy.last, ?_⟩
  intro ns member
  obtain ⟨label, opened, rfl⟩ := List.mem_map.1 member
  have past := closed label opened
  rw [tracks.closed, List.mem_reverse] at past
  exact Wire.mem_ended.1 past

end DumpArchive.Multiplexer.Traffic

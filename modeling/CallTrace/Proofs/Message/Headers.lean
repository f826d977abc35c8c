import CallTrace.Proofs.Message.Display

/-!
# The headers of packed messages

The URL of an envelope stands as it is in the header of the message packed in it, where nothing else
of a record is shown as it is. So whether a property holds of all that is shown of a message comes
down to the URLs of the envelopes that are opened: those of known types in the message, those packed
in these, and so on.
-/

namespace CallTrace

variable [KnownTypes]

/-- The URL is that of the envelope, if it is opened, or of one packed in its message. -/
inductive Any.Shows : Any → String → Prop where
  /-- The packed message stands under the URL of the envelope. -/
  | header {a : Any} {inner : List Any} (h : a.contents? = some (.ok inner)) : a.Shows a.typeUrl
  /-- What is packed in the packed message stands under URLs of its own. -/
  | packed {a b : Any} {inner : List Any} {url : String} (h : a.contents? = some (.ok inner))
      (hb : b ∈ inner) (hurl : b.Shows url) : a.Shows url

/-- All that is shown of a sound envelope has a property just where all URLs in it are good. -/
theorem Any.shown_unpack_iff {Q : TextNode → Prop} {R : String → Prop}
    (hQ : TextNode.Watches Q R) {a : Any} (h : a.Sound) :
    Shown Q a.unpack ↔ ∀ url, a.Shows url → R url := by
  induction h with
  | foreign hn =>
    refine iff_of_true (shown_unpack_of_closed hQ.toRegular hn) fun url hurl => ?_
    cases hurl with
    | header hc => cases hc.symm.trans hn
    | packed hc => cases hc.symm.trans hn
  | @known a inner hc hs ih =>
    rw [shown_unpack_of_opened hQ hc, forall₂_congr ih]
    constructor
    · intro hall url hurl
      cases hurl with
      | header => exact hall.1
      | packed hc' hb hurl =>
        cases hc.symm.trans hc'
        exact hall.2 _ hb url hurl
    · intro hall
      exact ⟨hall _ (.header hc), fun b hb url hurl => hall url (.packed hc hb hurl)⟩

/-- All that is shown of a message has a property just where all URLs that it shows are good. -/
theorem MessageType.forall_mem_nodes_iff {Q : TextNode → Prop} {R : String → Prop}
    (hQ : TextNode.Watches Q R) {t : MessageType} {m : t.Message} {nodes : List TextNode}
    (h : t.nodes m = .ok nodes) :
    (∀ node ∈ nodes, Q node) ↔ ∀ a ∈ t.envelopes m, ∀ url, a.Shows url → R url := by
  have hsound := (t.isOk_nodes_iff m).mp (by rw [h]; rfl)
  rw [← shown_ok, ← h, MessageType.nodes, MessageType.shown_nodes hQ.toRegular]
  exact forall₂_congr fun a ha => Any.shown_unpack_iff hQ (hsound a ha)

end CallTrace

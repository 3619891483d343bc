import Mathlib.Tactic.IntervalCases
import Mproxy.Lib.Wire
import Mproxy.Loci

set_option relaxedAutoImplicit false
set_option autoImplicit false

/-!
# The validators for version 1.0

`loci_validator.c`: the validators of messages of version `1.0` and of the objects in them. They are
generated, and all of the same kind: a length that is fixed or announced, a number that chooses a
validator that is more specific, a list of objects behind the fixed part. The function
`loci_validate_of_x_OF_VERSION_1_0` is `lociValidateOfX` here; of them, those are left out that no
message gets to.

## Main definitions

* `Mproxy.OfVersion10.lociValidateOfHeader` and what it calls — the validators.
* `Mproxy.Loci.of10` — loci, with these in place.
* `Mproxy.OfVersion10.WellFormed` — the messages that they accept.

## Main results

* `Mproxy.ofObjectNewFromMessage_of10` — loci makes an object of a message of version `1.0` exactly
  if it is well formed, and reads nothing behind it.
* `Mproxy.OfVersion10.wellFormed_iff` — which messages are well formed.
-/

namespace Mproxy

namespace OfVersion10

open Wire

/-! ## Actions -/

/-- A checksum action of `bsn`. -/
def lociValidateOfActionBsnChecksum : Sized 2 := .fixed 28 2 (by decide)

/-- An action of `bsn` that mirrors to a port. -/
def lociValidateOfActionBsnMirror : Sized 2 := .fixed 24 2 (by decide)

/-- An action of `bsn` that sets the other end of a tunnel. -/
def lociValidateOfActionBsnSetTunnelDst : Sized 2 := .fixed 16 2 (by decide)

/-- An action of the experimenter `bsn`, by its subtype. -/
def lociValidateOfActionBsn : Sized 2 :=
  .object 16 2 (by decide) (.switch 8 4
    [(0x4, lociValidateOfActionBsnChecksum), (0x1, lociValidateOfActionBsnMirror),
      (0x2, lociValidateOfActionBsnSetTunnelDst)] .plain (by decide))

/-- An action of `nicira` that counts down the time to live. -/
def lociValidateOfActionNiciraDecTtl : Sized 2 := .fixed 16 2 (by decide)

/-- An action of the experimenter `nicira`, by its subtype. -/
def lociValidateOfActionNicira : Sized 2 :=
  .object 16 2 (by decide) (.switch 8 2
    [(0x12, lociValidateOfActionNiciraDecTtl)] .plain (by decide))

/-- An action of an experimenter, by who it is. -/
def lociValidateOfActionExperimenter : Sized 2 :=
  .object 8 2 (by decide) (.switch 4 4
    [(0x5c16c7, lociValidateOfActionBsn), (0x2320, lociValidateOfActionNicira)] .plain (by decide))

/-- `OFPAT_ENQUEUE`: out of a port, through one of its queues. -/
def lociValidateOfActionEnqueue : Sized 2 := .fixed 16 2 (by decide)

/-- `OFPAT_OUTPUT`: out of a port. -/
def lociValidateOfActionOutput : Sized 2 := .fixed 8 2 (by decide)

/-- `OFPAT_SET_DL_DST`: a new Ethernet destination. -/
def lociValidateOfActionSetDlDst : Sized 2 := .fixed 16 2 (by decide)

/-- `OFPAT_SET_DL_SRC`: a new Ethernet source. -/
def lociValidateOfActionSetDlSrc : Sized 2 := .fixed 16 2 (by decide)

/-- `OFPAT_SET_NW_DST`: a new IP destination. -/
def lociValidateOfActionSetNwDst : Sized 2 := .fixed 8 2 (by decide)

/-- `OFPAT_SET_NW_SRC`: a new IP source. -/
def lociValidateOfActionSetNwSrc : Sized 2 := .fixed 8 2 (by decide)

/-- `OFPAT_SET_NW_TOS`: a new type of service. -/
def lociValidateOfActionSetNwTos : Sized 2 := .fixed 8 2 (by decide)

/-- `OFPAT_SET_TP_DST`: a new destination port. -/
def lociValidateOfActionSetTpDst : Sized 2 := .fixed 8 2 (by decide)

/-- `OFPAT_SET_TP_SRC`: a new source port. -/
def lociValidateOfActionSetTpSrc : Sized 2 := .fixed 8 2 (by decide)

/-- `OFPAT_SET_VLAN_PCP`: a new VLAN priority. -/
def lociValidateOfActionSetVlanPcp : Sized 2 := .fixed 8 2 (by decide)

/-- `OFPAT_SET_VLAN_VID`: a new VLAN. -/
def lociValidateOfActionSetVlanVid : Sized 2 := .fixed 8 2 (by decide)

/-- `OFPAT_STRIP_VLAN`: no VLAN. -/
def lociValidateOfActionStripVlan : Sized 2 := .fixed 8 2 (by decide)

/-- An action, by its type. -/
def lociValidateOfAction : Sized 2 :=
  .object 8 2 (by decide) (.switch 0 2
    [(0xffff, lociValidateOfActionExperimenter), (0xb, lociValidateOfActionEnqueue),
      (0x0, lociValidateOfActionOutput), (0x5, lociValidateOfActionSetDlDst),
      (0x4, lociValidateOfActionSetDlSrc), (0x7, lociValidateOfActionSetNwDst),
      (0x6, lociValidateOfActionSetNwSrc), (0x8, lociValidateOfActionSetNwTos),
      (0xa, lociValidateOfActionSetTpDst), (0x9, lociValidateOfActionSetTpSrc),
      (0x2, lociValidateOfActionSetVlanPcp), (0x1, lociValidateOfActionSetVlanVid),
      (0x3, lociValidateOfActionStripVlan)] .plain (by decide))

/-- A list of actions. -/
def lociValidateOfListAction : Listing := ⟨lociValidateOfAction.toFormat⟩

/-! ## Statistics -/

/-- A reply with the statistics of many flows taken together. -/
def lociValidateOfAggregateStatsReply : Sized 2 := .fixed 36 2 (by decide)

/-- A reply with statistics of `bsn`. No subtype has a validator. -/
def lociValidateOfBsnStatsReply : Sized 2 :=
  .object 24 2 (by decide) (.switch 20 4 [] .plain (by decide))

/-- A reply with statistics of an experimenter, by who it is. -/
def lociValidateOfExperimenterStatsReply : Sized 2 :=
  .object 16 2 (by decide) (.switch 12 4
    [(0x5c16c7, lociValidateOfBsnStatsReply)] .plain (by decide))

/-- A reply with the description of the switch, in texts of fixed length. -/
def lociValidateOfDescStatsReply : Sized 2 := .fixed 1068 2 (by decide)

/-- The statistics of one flow, with its actions behind. -/
def lociValidateOfFlowStatsEntry : Sized 0 :=
  .object 88 0 (by decide) (.rest 88 lociValidateOfListAction (by decide))

/-- A list of statistics of flows. -/
def lociValidateOfListFlowStatsEntry : Listing := ⟨lociValidateOfFlowStatsEntry.toFormat⟩

/-- A reply with the statistics of flows. -/
def lociValidateOfFlowStatsReply : Sized 2 :=
  .object 12 2 (by decide) (.rest 12 lociValidateOfListFlowStatsEntry (by decide))

/-- The statistics of one port. -/
def lociValidateOfPortStatsEntry : Format := .fixed 104 (by decide)

/-- A list of statistics of ports. -/
def lociValidateOfListPortStatsEntry : Listing := ⟨lociValidateOfPortStatsEntry⟩

/-- A reply with the statistics of ports. -/
def lociValidateOfPortStatsReply : Sized 2 :=
  .object 12 2 (by decide) (.rest 12 lociValidateOfListPortStatsEntry (by decide))

/-- The statistics of one queue. -/
def lociValidateOfQueueStatsEntry : Format := .fixed 32 (by decide)

/-- A list of statistics of queues. -/
def lociValidateOfListQueueStatsEntry : Listing := ⟨lociValidateOfQueueStatsEntry⟩

/-- A reply with the statistics of queues. -/
def lociValidateOfQueueStatsReply : Sized 2 :=
  .object 12 2 (by decide) (.rest 12 lociValidateOfListQueueStatsEntry (by decide))

/-- The statistics of one table. -/
def lociValidateOfTableStatsEntry : Format := .fixed 64 (by decide)

/-- A list of statistics of tables. -/
def lociValidateOfListTableStatsEntry : Listing := ⟨lociValidateOfTableStatsEntry⟩

/-- A reply with the statistics of tables. -/
def lociValidateOfTableStatsReply : Sized 2 :=
  .object 12 2 (by decide) (.rest 12 lociValidateOfListTableStatsEntry (by decide))

/-- A reply with statistics, by their kind. -/
def lociValidateOfStatsReply : Sized 2 :=
  .object 12 2 (by decide) (.switch 8 2
    [(0x2, lociValidateOfAggregateStatsReply), (0xffff, lociValidateOfExperimenterStatsReply),
      (0x0, lociValidateOfDescStatsReply), (0x1, lociValidateOfFlowStatsReply),
      (0x4, lociValidateOfPortStatsReply), (0x5, lociValidateOfQueueStatsReply),
      (0x3, lociValidateOfTableStatsReply)] .plain (by decide))

/-- A request for the statistics of many flows taken together. -/
def lociValidateOfAggregateStatsRequest : Sized 2 := .fixed 56 2 (by decide)

/-- A request for statistics of `bsn`. No subtype has a validator. -/
def lociValidateOfBsnStatsRequest : Sized 2 :=
  .object 24 2 (by decide) (.switch 20 4 [] .plain (by decide))

/-- A request for statistics of an experimenter, by who it is. -/
def lociValidateOfExperimenterStatsRequest : Sized 2 :=
  .object 16 2 (by decide) (.switch 12 4
    [(0x5c16c7, lociValidateOfBsnStatsRequest)] .plain (by decide))

/-- A request for the description of the switch. -/
def lociValidateOfDescStatsRequest : Sized 2 := .fixed 12 2 (by decide)

/-- A request for the statistics of flows. -/
def lociValidateOfFlowStatsRequest : Sized 2 := .fixed 56 2 (by decide)

/-- A request for the statistics of ports. -/
def lociValidateOfPortStatsRequest : Sized 2 := .fixed 20 2 (by decide)

/-- A request for the statistics of queues. -/
def lociValidateOfQueueStatsRequest : Sized 2 := .fixed 20 2 (by decide)

/-- A request for the statistics of tables. -/
def lociValidateOfTableStatsRequest : Sized 2 := .fixed 12 2 (by decide)

/-- A request for statistics, by their kind. -/
def lociValidateOfStatsRequest : Sized 2 :=
  .object 12 2 (by decide) (.switch 8 2
    [(0x2, lociValidateOfAggregateStatsRequest), (0xffff, lociValidateOfExperimenterStatsRequest),
      (0x0, lociValidateOfDescStatsRequest), (0x1, lociValidateOfFlowStatsRequest),
      (0x4, lociValidateOfPortStatsRequest), (0x5, lociValidateOfQueueStatsRequest),
      (0x3, lociValidateOfTableStatsRequest)] .plain (by decide))

/-! ## Errors -/

/-- An error in an action. -/
def lociValidateOfBadActionErrorMsg : Sized 2 := .object 12 2 (by decide) .plain

/-- An error in a request. -/
def lociValidateOfBadRequestErrorMsg : Sized 2 := .object 12 2 (by decide) .plain

/-- A flow modification that failed. -/
def lociValidateOfFlowModFailedErrorMsg : Sized 2 := .object 12 2 (by decide) .plain

/-- A hello that failed. -/
def lociValidateOfHelloFailedErrorMsg : Sized 2 := .object 12 2 (by decide) .plain

/-- A port modification that failed. -/
def lociValidateOfPortModFailedErrorMsg : Sized 2 := .object 12 2 (by decide) .plain

/-- A queue operation that failed. -/
def lociValidateOfQueueOpFailedErrorMsg : Sized 2 := .object 12 2 (by decide) .plain

/-- An error, by its kind. -/
def lociValidateOfErrorMsg : Sized 2 :=
  .object 10 2 (by decide) (.switch 8 2
    [(0x2, lociValidateOfBadActionErrorMsg), (0x1, lociValidateOfBadRequestErrorMsg),
      (0x3, lociValidateOfFlowModFailedErrorMsg), (0x0, lociValidateOfHelloFailedErrorMsg),
      (0x4, lociValidateOfPortModFailedErrorMsg), (0x5, lociValidateOfQueueOpFailedErrorMsg)]
    .plain (by decide))

/-! ## Experimenter messages -/

/-- A message of `bsn`: the reply that bandwidth data is cleared. -/
def lociValidateOfBsnBwClearDataReply : Sized 2 := .fixed 20 2 (by decide)

/-- A message of `bsn`: the request to clear bandwidth data. -/
def lociValidateOfBsnBwClearDataRequest : Sized 2 := .fixed 16 2 (by decide)

/-- A message of `bsn`: the reply whether bandwidth is measured. -/
def lociValidateOfBsnBwEnableGetReply : Sized 2 := .fixed 20 2 (by decide)

/-- A message of `bsn`: the request whether bandwidth is measured. -/
def lociValidateOfBsnBwEnableGetRequest : Sized 2 := .fixed 16 2 (by decide)

/-- A message of `bsn`: the reply that bandwidth is measured from now on, or not. -/
def lociValidateOfBsnBwEnableSetReply : Sized 2 := .fixed 24 2 (by decide)

/-- A message of `bsn`: the request to measure bandwidth, or not to. -/
def lociValidateOfBsnBwEnableSetRequest : Sized 2 := .fixed 20 2 (by decide)

/-- One interface. -/
def lociValidateOfBsnInterface : Format := .fixed 32 (by decide)

/-- A list of interfaces. -/
def lociValidateOfListBsnInterface : Listing := ⟨lociValidateOfBsnInterface⟩

/-- A message of `bsn`: the reply with a list of interfaces. -/
def lociValidateOfBsnGetInterfacesReply : Sized 2 :=
  .object 16 2 (by decide) (.rest 16 lociValidateOfListBsnInterface (by decide))

/-- A message of `bsn`: the request for the interfaces. -/
def lociValidateOfBsnGetInterfacesRequest : Sized 2 := .fixed 16 2 (by decide)

/-- A message of `bsn`: the reply with an IP mask. -/
def lociValidateOfBsnGetIpMaskReply : Sized 2 := .fixed 24 2 (by decide)

/-- A message of `bsn`: the request for an IP mask. -/
def lociValidateOfBsnGetIpMaskRequest : Sized 2 := .fixed 24 2 (by decide)

/-- A message of `bsn`: the reply on the use of the layer 2 table. -/
def lociValidateOfBsnGetL2TableReply : Sized 2 := .fixed 24 2 (by decide)

/-- A message of `bsn`: the request for the use of the layer 2 table. -/
def lociValidateOfBsnGetL2TableRequest : Sized 2 := .fixed 16 2 (by decide)

/-- A message of `bsn`: the reply on mirroring. -/
def lociValidateOfBsnGetMirroringReply : Sized 2 := .fixed 20 2 (by decide)

/-- A message of `bsn`: the request for the state of mirroring. -/
def lociValidateOfBsnGetMirroringRequest : Sized 2 := .fixed 20 2 (by decide)

/-- A message of `bsn`: the reply on the hybrid mode. -/
def lociValidateOfBsnHybridGetReply : Sized 2 := .fixed 24 2 (by decide)

/-- A message of `bsn`: the request for the hybrid mode. -/
def lociValidateOfBsnHybridGetRequest : Sized 2 := .fixed 16 2 (by decide)

/-- A message of `bsn`: the reply on a PDU that is to be received. -/
def lociValidateOfBsnPduRxReply : Sized 2 := .fixed 23 2 (by decide)

/-- A message of `bsn`: the request to receive a PDU, which it holds. -/
def lociValidateOfBsnPduRxRequest : Sized 2 := .object 26 2 (by decide) .plain

/-- A message of `bsn`: a PDU that was not received in time. -/
def lociValidateOfBsnPduRxTimeout : Sized 2 := .fixed 19 2 (by decide)

/-- A message of `bsn`: the reply on a PDU that is to be sent. -/
def lociValidateOfBsnPduTxReply : Sized 2 := .fixed 23 2 (by decide)

/-- A message of `bsn`: the request to send a PDU, which it holds. -/
def lociValidateOfBsnPduTxRequest : Sized 2 := .object 26 2 (by decide) .plain

/-- A message of `bsn`: a new IP mask. -/
def lociValidateOfBsnSetIpMask : Sized 2 := .fixed 24 2 (by decide)

/-- A message of `bsn`: the reply on a new use of the layer 2 table. -/
def lociValidateOfBsnSetL2TableReply : Sized 2 := .fixed 24 2 (by decide)

/-- A message of `bsn`: the request for a new use of the layer 2 table. -/
def lociValidateOfBsnSetL2TableRequest : Sized 2 := .fixed 24 2 (by decide)

/-- A message of `bsn`: a new state of mirroring. -/
def lociValidateOfBsnSetMirroring : Sized 2 := .fixed 20 2 (by decide)

/-- A message of `bsn`: the reply on the suppression of packet-ins. -/
def lociValidateOfBsnSetPktinSuppressionReply : Sized 2 := .fixed 20 2 (by decide)

/-- A message of `bsn`: the request to suppress packet-ins. -/
def lociValidateOfBsnSetPktinSuppressionRequest : Sized 2 := .fixed 32 2 (by decide)

/-- A message of `bsn`: a command for the shell, which it holds. -/
def lociValidateOfBsnShellCommand : Sized 2 := .object 20 2 (by decide) .plain

/-- A message of `bsn`: what the shell printed. -/
def lociValidateOfBsnShellOutput : Sized 2 := .object 16 2 (by decide) .plain

/-- A message of `bsn`: how the shell ended. -/
def lociValidateOfBsnShellStatus : Sized 2 := .fixed 20 2 (by decide)

/-- A message of `bsn`: the reply with a new virtual port. -/
def lociValidateOfBsnVirtualPortCreateReply : Sized 2 := .fixed 24 2 (by decide)

/-- A message of `bsn`: the request for a new virtual port, whose description it holds. -/
def lociValidateOfBsnVirtualPortCreateRequest : Sized 2 := .object 20 2 (by decide) .plain

/-- A message of `bsn`: the reply on a removed virtual port. -/
def lociValidateOfBsnVirtualPortRemoveReply : Sized 2 := .fixed 20 2 (by decide)

/-- A message of `bsn`: the request to remove a virtual port. -/
def lociValidateOfBsnVirtualPortRemoveRequest : Sized 2 := .fixed 20 2 (by decide)

/-- A message of the experimenter `bsn`, by its subtype. -/
def lociValidateOfBsnHeader : Sized 2 :=
  .object 16 2 (by decide) (.switch 12 4
    [(0x16, lociValidateOfBsnBwClearDataReply), (0x15, lociValidateOfBsnBwClearDataRequest),
      (0x14, lociValidateOfBsnBwEnableGetReply), (0x13, lociValidateOfBsnBwEnableGetRequest),
      (0x17, lociValidateOfBsnBwEnableSetReply), (0x12, lociValidateOfBsnBwEnableSetRequest),
      (0xa, lociValidateOfBsnGetInterfacesReply), (0x9, lociValidateOfBsnGetInterfacesRequest),
      (0x2, lociValidateOfBsnGetIpMaskReply), (0x1, lociValidateOfBsnGetIpMaskRequest),
      (0xe, lociValidateOfBsnGetL2TableReply), (0xd, lociValidateOfBsnGetL2TableRequest),
      (0x5, lociValidateOfBsnGetMirroringReply), (0x4, lociValidateOfBsnGetMirroringRequest),
      (0x1c, lociValidateOfBsnHybridGetReply), (0x1b, lociValidateOfBsnHybridGetRequest),
      (0x22, lociValidateOfBsnPduRxReply), (0x21, lociValidateOfBsnPduRxRequest),
      (0x23, lociValidateOfBsnPduRxTimeout), (0x20, lociValidateOfBsnPduTxReply),
      (0x1f, lociValidateOfBsnPduTxRequest), (0x0, lociValidateOfBsnSetIpMask),
      (0x18, lociValidateOfBsnSetL2TableReply), (0xc, lociValidateOfBsnSetL2TableRequest),
      (0x3, lociValidateOfBsnSetMirroring), (0x19, lociValidateOfBsnSetPktinSuppressionReply),
      (0xb, lociValidateOfBsnSetPktinSuppressionRequest), (0x6, lociValidateOfBsnShellCommand),
      (0x7, lociValidateOfBsnShellOutput), (0x8, lociValidateOfBsnShellStatus),
      (0x10, lociValidateOfBsnVirtualPortCreateReply),
      (0xf, lociValidateOfBsnVirtualPortCreateRequest),
      (0x1a, lociValidateOfBsnVirtualPortRemoveReply),
      (0x11, lociValidateOfBsnVirtualPortRemoveRequest)] .plain (by decide))

/-- A message of `nicira`: the reply with the role of a controller. -/
def lociValidateOfNiciraControllerRoleReply : Sized 2 := .fixed 20 2 (by decide)

/-- A message of `nicira`: the request for a role of the controller. -/
def lociValidateOfNiciraControllerRoleRequest : Sized 2 := .fixed 20 2 (by decide)

/-- A message of the experimenter `nicira`, by its subtype. -/
def lociValidateOfNiciraHeader : Sized 2 :=
  .object 16 2 (by decide) (.switch 12 4
    [(0xb, lociValidateOfNiciraControllerRoleReply),
      (0xa, lociValidateOfNiciraControllerRoleRequest)] .plain (by decide))

/-- A message of an experimenter, by who it is. -/
def lociValidateOfExperimenter : Sized 2 :=
  .object 12 2 (by decide) (.switch 8 4
    [(0x5c16c7, lociValidateOfBsnHeader), (0x2320, lociValidateOfNiciraHeader)] .plain (by decide))

/-! ## Messages -/

/-- A barrier that was reached. -/
def lociValidateOfBarrierReply : Sized 2 := .fixed 8 2 (by decide)

/-- A barrier. -/
def lociValidateOfBarrierRequest : Sized 2 := .fixed 8 2 (by decide)

/-- The reply to an echo request, with any data. -/
def lociValidateOfEchoReply : Sized 2 := .object 8 2 (by decide) .plain

/-- An echo request, with any data. -/
def lociValidateOfEchoRequest : Sized 2 := .object 8 2 (by decide) .plain

/-- The description of one port. -/
def lociValidateOfPortDesc : Format := .fixed 48 (by decide)

/-- A list of descriptions of ports. -/
def lociValidateOfListPortDesc : Listing := ⟨lociValidateOfPortDesc⟩

/-- The features of a switch, with a list of its ports. -/
def lociValidateOfFeaturesReply : Sized 2 :=
  .object 32 2 (by decide) (.rest 32 lociValidateOfListPortDesc (by decide))

/-- A request for the features of a switch. -/
def lociValidateOfFeaturesRequest : Sized 2 := .fixed 8 2 (by decide)

/-- A flow modification that adds a flow, with its actions behind. -/
def lociValidateOfFlowAdd : Sized 2 :=
  .object 72 2 (by decide) (.rest 72 lociValidateOfListAction (by decide))

/-- A flow modification that deletes flows. -/
def lociValidateOfFlowDelete : Sized 2 :=
  .object 72 2 (by decide) (.rest 72 lociValidateOfListAction (by decide))

/-- A flow modification that deletes one flow. -/
def lociValidateOfFlowDeleteStrict : Sized 2 :=
  .object 72 2 (by decide) (.rest 72 lociValidateOfListAction (by decide))

/-- A flow modification that changes the actions of flows. -/
def lociValidateOfFlowModify : Sized 2 :=
  .object 72 2 (by decide) (.rest 72 lociValidateOfListAction (by decide))

/-- A flow modification that changes the actions of one flow. -/
def lociValidateOfFlowModifyStrict : Sized 2 :=
  .object 72 2 (by decide) (.rest 72 lociValidateOfListAction (by decide))

/-- A flow modification, by its command. -/
def lociValidateOfFlowMod : Sized 2 :=
  .object 72 2 (by decide) (.switch 56 2
    [(0x0, lociValidateOfFlowAdd), (0x3, lociValidateOfFlowDelete),
      (0x4, lociValidateOfFlowDeleteStrict), (0x1, lociValidateOfFlowModify),
      (0x2, lociValidateOfFlowModifyStrict)]
    (.rest 72 lociValidateOfListAction (by decide)) (by decide))

/-- A flow that was removed. -/
def lociValidateOfFlowRemoved : Sized 2 := .fixed 88 2 (by decide)

/-- The configuration of a switch. -/
def lociValidateOfGetConfigReply : Sized 2 := .fixed 12 2 (by decide)

/-- A request for the configuration of a switch. -/
def lociValidateOfGetConfigRequest : Sized 2 := .fixed 8 2 (by decide)

/-- A hello message. Other than later versions, this one takes no data behind it. -/
def lociValidateOfHello : Sized 2 := .fixed 8 2 (by decide)

/-- A packet for the controller, with any data. -/
def lociValidateOfPacketIn : Sized 2 := .object 18 2 (by decide) .plain

/-- A packet from the controller: a list of actions whose length is given, and any data. -/
def lociValidateOfPacketOut : Sized 2 :=
  .object 16 2 (by decide) (.counted 14 16 lociValidateOfListAction (by decide) (by decide))

/-- A port modification. -/
def lociValidateOfPortMod : Sized 2 := .fixed 32 2 (by decide)

/-- A port whose state has changed. -/
def lociValidateOfPortStatus : Sized 2 := .fixed 64 2 (by decide)

/-- The least rate of a queue, as one of its properties. -/
def lociValidateOfQueuePropMinRate : Sized 2 := .fixed 16 2 (by decide)

/-- A property of a queue, by its type. -/
def lociValidateOfQueueProp : Sized 2 :=
  .object 8 2 (by decide) (.switch 0 2
    [(0x1, lociValidateOfQueuePropMinRate)] .plain (by decide))

/-- A list of properties of a queue. -/
def lociValidateOfListQueueProp : Listing := ⟨lociValidateOfQueueProp.toFormat⟩

/-- A queue of a port, with a list of its properties. -/
def lociValidateOfPacketQueue : Sized 4 :=
  .object 8 4 (by decide) (.rest 8 lociValidateOfListQueueProp (by decide))

/-- A list of queues. -/
def lociValidateOfListPacketQueue : Listing := ⟨lociValidateOfPacketQueue.toFormat⟩

/-- The queues of a port. -/
def lociValidateOfQueueGetConfigReply : Sized 2 :=
  .object 16 2 (by decide) (.rest 16 lociValidateOfListPacketQueue (by decide))

/-- A request for the queues of a port. -/
def lociValidateOfQueueGetConfigRequest : Sized 2 := .fixed 12 2 (by decide)

/-- A new configuration for a switch. -/
def lociValidateOfSetConfig : Sized 2 := .fixed 12 2 (by decide)

/-- A table modification. -/
def lociValidateOfTableMod : Sized 2 := .fixed 16 2 (by decide)

/-- **A message**, by its type. This is the validator that `of_validate_message` calls. -/
def lociValidateOfHeader : Sized 2 :=
  .object 8 2 (by decide) (.switch 1 1
    [(0x11, lociValidateOfStatsReply), (0x10, lociValidateOfStatsRequest),
      (0x1, lociValidateOfErrorMsg), (0x13, lociValidateOfBarrierReply),
      (0x12, lociValidateOfBarrierRequest), (0x4, lociValidateOfExperimenter),
      (0x3, lociValidateOfEchoReply), (0x2, lociValidateOfEchoRequest),
      (0x6, lociValidateOfFeaturesReply), (0x5, lociValidateOfFeaturesRequest),
      (0xe, lociValidateOfFlowMod), (0xb, lociValidateOfFlowRemoved),
      (0x8, lociValidateOfGetConfigReply), (0x7, lociValidateOfGetConfigRequest),
      (0x0, lociValidateOfHello), (0xa, lociValidateOfPacketIn), (0xd, lociValidateOfPacketOut),
      (0xf, lociValidateOfPortMod), (0xc, lociValidateOfPortStatus),
      (0x15, lociValidateOfQueueGetConfigReply), (0x14, lociValidateOfQueueGetConfigRequest),
      (0x9, lociValidateOfSetConfig), (0x16, lociValidateOfTableMod)] .plain (by decide))

/-- The bytes of a message that is accepted. -/
def WellFormed (b : List UInt8) : Prop := lociValidateOfHeader.Encodes b

end OfVersion10

/-- Whether a validator returned `0`. -/
def returnsZero : Wire.Outcome → Bool
  | .accepted _ => true
  | _ => false

/-- loci with the validators for version `1.0`; those for the other versions are left open. -/
def Loci.of10 (L : Loci) : Loci where
  validateHeader version msg :=
    if version = 1 then returnsZero (OfVersion10.lociValidateOfHeader.validate msg msg.length)
    else L.validateHeader version msg

/-! ## Accepted messages -/

section Accepted

variable {L : Loci}

/-- A well-formed message has a header and announces its length. -/
lemma OfVersion10.WellFormed.header {b : List UInt8} (h : OfVersion10.WellFormed b) :
    8 ≤ b.length ∧ ofMessageLengthGet b = b.length := by
  obtain ⟨hmin, hann, -⟩ := h
  refine ⟨hmin, ?_⟩
  rw [ofMessageLengthGet, ← hann, Wire.number_two (by omega)]

/-- A message that announces its length is accepted exactly if it is well formed. -/
lemma returnsZero_iff {b : List UInt8} (hlen : 8 ≤ b.length)
    (hann : ofMessageLengthGet b = b.length) :
    returnsZero (OfVersion10.lociValidateOfHeader.validate b b.length) = true ↔
      OfVersion10.WellFormed b := by
  have haccepts : ∀ k, OfVersion10.lociValidateOfHeader.validate b b.length = .accepted k ↔
      k ≤ b.length ∧ OfVersion10.WellFormed (b.take k) :=
    fun k => OfVersion10.lociValidateOfHeader.accepts le_rfl
  constructor
  · intro h
    rcases OfVersion10.lociValidateOfHeader.answers (le_refl b.length) with hrej | ⟨k, hk⟩
    · rw [hrej] at h
      cases h
    · obtain ⟨hle, hwell⟩ := (haccepts k).mp hk
      obtain ⟨hpos, hnum⟩ := OfVersion10.lociValidateOfHeader.announced hwell
      rw [List.length_take_of_le hle] at hpos hnum
      rw [Wire.number_take hpos, Wire.number_two (by omega)] at hnum
      obtain rfl : k = b.length := hnum.symm.trans hann
      rwa [List.take_length] at hwell
  · intro h
    rw [(haccepts b.length).mpr ⟨le_rfl, by rwa [List.take_length]⟩]
    rfl

/-- Whether loci makes an object of a message of version `1.0`. -/
lemma ofObjectNewFromMessage_of10_isSome {msg : List UInt8} {len : ℕ} (hlen : len ≤ msg.length)
    (hver : ofMessageVersionGet msg = 1) :
    (ofObjectNewFromMessage L.of10 msg len).isSome ↔ OfVersion10.WellFormed (msg.take len) := by
  have hvalid : ofVersionOkay 1 = true := rfl
  have hb : (msg.take len).length = len := List.length_take_of_le hlen
  have hget : 8 ≤ len → ofMessageLengthGet (msg.take len) = ofMessageLengthGet msg := by
    intro h
    simp only [ofMessageLengthGet, List.getD_eq_getElem?_getD,
      List.getElem?_take_of_lt (show 2 < len by omega),
      List.getElem?_take_of_lt (show 3 < len by omega)]
  rw [ofObjectNewFromMessage, hver, ofValidateMessage, ofMessageMinLength, hver]
  simp only [hvalid, if_true, Loci.of10, Bool.true_eq_false, if_false]
  by_cases hbad : len < 8 ∨ len ≠ ofMessageLengthGet msg
  · rw [if_pos hbad]
    refine iff_of_false (by simp) fun hwell => ?_
    have hhdr := hwell.header
    rw [hb] at hhdr
    rw [hget hhdr.1] at hhdr
    omega
  · rw [if_neg hbad]
    have hzero := returnsZero_iff (b := msg.take len) (by omega) (by rw [hget (by omega)]; omega)
    rw [← hzero]
    split_ifs with h
    · exact iff_of_true rfl h
    · exact iff_of_false (by simp) h

end Accepted

/-! ## What is well formed -/

namespace OfVersion10

open Wire

/-- The length of a standard action, `OFPAT_OUTPUT` to `OFPAT_ENQUEUE`. -/
def actionLength : ℕ → Option ℕ
  | 0 | 1 | 2 | 3 => some 8
  | 4 | 5 => some 16
  | 6 | 7 | 8 | 9 | 10 => some 8
  | 11 => some 16
  | _ => none

/-- An action: it announces its length, which is the one of its type if this is a standard one; one
of an experimenter is checked further. -/
structure IsAction (a : List UInt8) : Prop where
  long : 8 ≤ a.length
  announced : number a 2 2 = a.length
  standard : ∀ n ∈ actionLength (number a 0 2), a.length = n
  experimenter : number a 0 2 = 0xffff → lociValidateOfActionExperimenter.Encodes a

/-- An entry of flow statistics, with the actions of its flow. -/
structure IsFlowEntry (e : List UInt8) : Prop where
  long : 88 ≤ e.length
  announced : number e 0 2 = e.length
  actions : ListOf IsAction (e.drop 88)

/-- A property of a queue. -/
structure IsQueueProp (p : List UInt8) : Prop where
  long : 8 ≤ p.length
  announced : number p 2 2 = p.length
  minRate : number p 0 2 = 1 → p.length = 16

/-- A queue of a port, with its properties. -/
structure IsQueue (q : List UInt8) : Prop where
  long : 8 ≤ q.length
  announced : number q 4 2 = q.length
  properties : ListOf IsQueueProp (q.drop 8)

/-- The length of the request for standard statistics, `OFPST_DESC` to `OFPST_QUEUE`. -/
def statsRequestLength : ℕ → Option ℕ
  | 0 | 3 => some 12
  | 1 | 2 => some 56
  | 4 | 5 => some 20
  | _ => none

/-- A request for statistics, behind its header. -/
structure IsStatsRequest (b : List UInt8) : Prop where
  long : 12 ≤ b.length
  standard : ∀ n ∈ statsRequestLength (number b 8 2), b.length = n
  experimenter : number b 8 2 = 0xffff → lociValidateOfExperimenterStatsRequest.Encodes b

/-- Statistics, behind the header: those of the switch and of all flows together have one length,
those of tables, ports and queues are lists of entries of one length. -/
structure IsStatsReply (b : List UInt8) : Prop where
  long : 12 ≤ b.length
  desc : number b 8 2 = 0 → b.length = 1068
  flow : number b 8 2 = 1 → ListOf IsFlowEntry (b.drop 12)
  aggregate : number b 8 2 = 2 → b.length = 36
  table : number b 8 2 = 3 → 64 ∣ b.length - 12
  port : number b 8 2 = 4 → 104 ∣ b.length - 12
  queue : number b 8 2 = 5 → 32 ∣ b.length - 12
  experimenter : number b 8 2 = 0xffff → lociValidateOfExperimenterStatsReply.Encodes b

/-- The length of the messages of one length. -/
def messageLength : ℕ → Option ℕ
  | 0x0 | 0x5 | 0x7 | 0x12 | 0x13 => some 8
  | 0x8 | 0x9 | 0x14 => some 12
  | 0x16 => some 16
  | 0xf => some 32
  | 0xc => some 64
  | 0xb => some 88
  | _ => none

/-- A message of version `1.0`. -/
structure IsMessage (b : List UInt8) : Prop where
  header : 8 ≤ b.length
  announced : number b 2 2 = b.length
  fixed : ∀ n ∈ messageLength (number b 1 1), b.length = n
  error : number b 1 1 = 0x1 → 10 ≤ b.length ∧ (number b 8 2 ≤ 5 → 12 ≤ b.length)
  experimenter : number b 1 1 = 0x4 → lociValidateOfExperimenter.Encodes b
  featuresReply : number b 1 1 = 0x6 → 32 ≤ b.length ∧ 48 ∣ b.length - 32
  packetIn : number b 1 1 = 0xa → 18 ≤ b.length
  packetOut : number b 1 1 = 0xd → 16 + number b 14 2 ≤ b.length ∧
    ListOf IsAction ((b.drop 16).take (number b 14 2))
  flowMod : number b 1 1 = 0xe → 72 ≤ b.length ∧ ListOf IsAction (b.drop 72)
  statsRequest : number b 1 1 = 0x10 → IsStatsRequest b
  statsReply : number b 1 1 = 0x11 → IsStatsReply b
  queues : number b 1 1 = 0x15 → 16 ≤ b.length ∧ ListOf IsQueue (b.drop 16)

/-- A number that chooses no validator. -/
lemma lookup_none {pos t : ℕ} {cases : List (ℕ × Sized pos)} (h : t ∉ cases.map Prod.fst) :
    cases.lookup t = none := by
  rw [List.lookup_eq_none_iff]
  intro c hc
  rw [bne_iff_ne]
  rintro rfl
  exact h (List.mem_map_of_mem hc)

section Objects

variable {a b : List UInt8}

/-- What the validator of actions accepts. -/
lemma encodes_action_iff : lociValidateOfAction.Encodes a ↔ IsAction a := by
  have hiff : IsAction a ↔ 8 ≤ a.length ∧ number a 2 2 = a.length ∧
      (∀ n ∈ actionLength (number a 0 2), a.length = n) ∧
      (number a 0 2 = 0xffff → lociValidateOfActionExperimenter.Encodes a) :=
    ⟨fun h => ⟨h.long, h.announced, h.standard, h.experimenter⟩,
      fun h => ⟨h.1, h.2.1, h.2.2.1, h.2.2.2⟩⟩
  rw [hiff]
  refine and_congr_right fun _ => and_congr_right fun hann => ?_
  simp only [Body.switch]
  generalize number a 0 2 = t
  by_cases ht : t < 12
  · interval_cases t <;>
      simp [List.lookup_cons, actionLength, Sized.fixed, hann, lociValidateOfActionOutput,
        lociValidateOfActionSetVlanVid, lociValidateOfActionSetVlanPcp,
        lociValidateOfActionStripVlan, lociValidateOfActionSetDlSrc, lociValidateOfActionSetDlDst,
        lociValidateOfActionSetNwSrc, lociValidateOfActionSetNwDst, lociValidateOfActionSetNwTos,
        lociValidateOfActionSetTpSrc, lociValidateOfActionSetTpDst, lociValidateOfActionEnqueue]
  by_cases hexp : t = 0xffff
  · subst hexp
    simp [actionLength]
  · have hnone : actionLength t = none := by
      unfold actionLength
      split <;> first | rfl | omega
    rw [lookup_none (by simp; omega), hnone]
    simp [hexp, Body.plain]

/-- What the validator of lists of actions accepts. -/
lemma repeats_action_iff : Repeats lociValidateOfListAction.element b ↔ ListOf IsAction b :=
  repeats_iff_listOf fun _ => encodes_action_iff

/-- What the validator of the statistics of a flow accepts. -/
lemma encodes_flowEntry_iff : lociValidateOfFlowStatsEntry.Encodes a ↔ IsFlowEntry a := by
  have hiff : lociValidateOfFlowStatsEntry.Encodes a ↔ 88 ≤ a.length ∧ number a 0 2 = a.length ∧
      Repeats lociValidateOfListAction.element (a.drop 88) := Iff.rfl
  rw [hiff, repeats_action_iff]
  exact ⟨fun h => ⟨h.1, h.2.1, h.2.2⟩, fun h => ⟨h.long, h.announced, h.actions⟩⟩

/-- What the validator of a property of a queue accepts. -/
lemma encodes_queueProp_iff : lociValidateOfQueueProp.Encodes a ↔ IsQueueProp a := by
  have hiff : IsQueueProp a ↔ 8 ≤ a.length ∧ number a 2 2 = a.length ∧
      (number a 0 2 = 1 → a.length = 16) :=
    ⟨fun h => ⟨h.long, h.announced, h.minRate⟩, fun h => ⟨h.1, h.2.1, h.2.2⟩⟩
  rw [hiff]
  refine and_congr_right fun _ => and_congr_right fun hann => ?_
  simp only [Body.switch]
  generalize number a 0 2 = t
  by_cases ht : t = 1
  · subst ht
    simp [Sized.fixed, hann, lociValidateOfQueuePropMinRate]
  · rw [lookup_none (by simpa using ht)]
    simp [ht, Body.plain]

/-- What the validator of a queue accepts. -/
lemma encodes_queue_iff : lociValidateOfPacketQueue.Encodes a ↔ IsQueue a := by
  have hiff : lociValidateOfPacketQueue.Encodes a ↔ 8 ≤ a.length ∧ number a 4 2 = a.length ∧
      Repeats lociValidateOfQueueProp.toFormat (a.drop 8) := Iff.rfl
  rw [hiff, repeats_iff_listOf fun _ => encodes_queueProp_iff]
  exact ⟨fun h => ⟨h.1, h.2.1, h.2.2⟩, fun h => ⟨h.long, h.announced, h.properties⟩⟩

end Objects

/-! ### Bodies of messages -/

section Messages

variable {b : List UInt8} (hann : number b 2 2 = b.length)

include hann

/-- An error of one of the known kinds has a code behind the kind. -/
lemma encodes_errorMsg_iff : lociValidateOfErrorMsg.Encodes b ↔
    10 ≤ b.length ∧ (number b 8 2 ≤ 5 → 12 ≤ b.length) := by
  refine and_congr_right fun _ => (and_iff_right hann).trans ?_
  simp only [Body.switch]
  generalize number b 8 2 = t
  by_cases ht : t ≤ 5
  · interval_cases t <;>
      simp [List.lookup_cons, Sized.object, Body.plain, hann, lociValidateOfBadActionErrorMsg,
        lociValidateOfBadRequestErrorMsg, lociValidateOfFlowModFailedErrorMsg,
        lociValidateOfHelloFailedErrorMsg, lociValidateOfPortModFailedErrorMsg,
        lociValidateOfQueueOpFailedErrorMsg]
  · rw [lookup_none (by simp; omega)]
    simp [ht, Body.plain]

/-- What stands behind the features are whole descriptions of ports. -/
lemma encodes_featuresReply_iff : lociValidateOfFeaturesReply.Encodes b ↔
    32 ≤ b.length ∧ 48 ∣ b.length - 32 := by
  refine and_congr_right fun _ => (and_iff_right hann).trans ?_
  rw [← List.length_drop]
  exact repeats_fixed_iff (by decide)

/-- The command of a flow modification does not matter: all of them are checked in the same way. -/
lemma encodes_flowMod_iff : lociValidateOfFlowMod.Encodes b ↔
    72 ≤ b.length ∧ ListOf IsAction (b.drop 72) := by
  refine and_congr_right fun hmin => (and_iff_right hann).trans ?_
  rw [← repeats_action_iff]
  refine Body.switch_holds fun c hc => ?_
  have hsame : c.2.Encodes b ↔ 72 ≤ b.length ∧ number b 2 2 = b.length ∧
      Repeats lociValidateOfListAction.element (b.drop 72) := by
    simp only [List.mem_cons, List.not_mem_nil, or_false] at hc
    rcases hc with rfl | rfl | rfl | rfl | rfl <;> exact Iff.rfl
  rw [hsame, and_iff_right hmin, and_iff_right hann]
  rfl

/-- The list of actions in a packet-out lies inside the message. -/
lemma encodes_packetOut_iff : lociValidateOfPacketOut.Encodes b ↔
    16 + number b 14 2 ≤ b.length ∧ ListOf IsAction ((b.drop 16).take (number b 14 2)) := by
  have hiff : lociValidateOfPacketOut.Encodes b ↔ 16 ≤ b.length ∧ number b 2 2 = b.length ∧
      16 + number b 14 2 ≤ b.length ∧
        Repeats lociValidateOfListAction.element ((b.drop 16).take (number b 14 2)) := Iff.rfl
  rw [hiff, repeats_action_iff, and_iff_right hann]
  exact ⟨fun h => h.2, fun h => ⟨by omega, h⟩⟩

/-- What the validator of requests for statistics accepts. -/
lemma encodes_statsRequest_iff : lociValidateOfStatsRequest.Encodes b ↔ IsStatsRequest b := by
  have hiff : IsStatsRequest b ↔ 12 ≤ b.length ∧
      (∀ n ∈ statsRequestLength (number b 8 2), b.length = n) ∧
      (number b 8 2 = 0xffff → lociValidateOfExperimenterStatsRequest.Encodes b) :=
    ⟨fun h => ⟨h.long, h.standard, h.experimenter⟩, fun h => ⟨h.1, h.2.1, h.2.2⟩⟩
  rw [hiff]
  refine and_congr_right fun _ => (and_iff_right hann).trans ?_
  simp only [Body.switch]
  generalize number b 8 2 = t
  by_cases ht : t ≤ 5
  · interval_cases t <;>
      simp [List.lookup_cons, statsRequestLength, Sized.fixed, hann, lociValidateOfDescStatsRequest,
        lociValidateOfFlowStatsRequest, lociValidateOfAggregateStatsRequest,
        lociValidateOfTableStatsRequest, lociValidateOfPortStatsRequest,
        lociValidateOfQueueStatsRequest]
  by_cases hexp : t = 0xffff
  · subst hexp
    simp [List.lookup_cons, statsRequestLength]
  · have hnone : statsRequestLength t = none := by
      unfold statsRequestLength
      split <;> first | rfl | omega
    rw [lookup_none (by simp; omega), hnone]
    simp [hexp, Body.plain]

/-- A reply that is a list of entries of one length. -/
lemma encodes_entries_iff {n : ℕ} (hn : 0 < n) {L : Listing} (hL : L.element = .fixed n hn)
    (hmin : 12 ≤ b.length) :
    (Sized.object 12 2 (by decide) (.rest 12 L (by decide))).Encodes b ↔ n ∣ b.length - 12 := by
  refine (and_iff_right hmin).trans ((and_iff_right hann).trans ?_)
  rw [← List.length_drop, ← repeats_fixed_iff hn, ← hL]
  rfl

/-- What the validator of replies with statistics accepts. -/
lemma encodes_statsReply_iff : lociValidateOfStatsReply.Encodes b ↔ IsStatsReply b := by
  have hiff : IsStatsReply b ↔ 12 ≤ b.length ∧ (number b 8 2 = 0 → b.length = 1068) ∧
      (number b 8 2 = 1 → ListOf IsFlowEntry (b.drop 12)) ∧
      (number b 8 2 = 2 → b.length = 36) ∧ (number b 8 2 = 3 → 64 ∣ b.length - 12) ∧
      (number b 8 2 = 4 → 104 ∣ b.length - 12) ∧ (number b 8 2 = 5 → 32 ∣ b.length - 12) ∧
      (number b 8 2 = 0xffff → lociValidateOfExperimenterStatsReply.Encodes b) := by
    constructor
    · rintro ⟨h₁, h₂, h₃, h₄, h₅, h₆, h₇, h₈⟩
      exact ⟨h₁, h₂, h₃, h₄, h₅, h₆, h₇, h₈⟩
    · rintro ⟨h₁, h₂, h₃, h₄, h₅, h₆, h₇, h₈⟩
      exact ⟨h₁, h₂, h₃, h₄, h₅, h₆, h₇, h₈⟩
  rw [hiff]
  refine and_congr_right fun hmin => (and_iff_right hann).trans ?_
  have hflow : lociValidateOfFlowStatsReply.Encodes b ↔ ListOf IsFlowEntry (b.drop 12) := by
    refine (and_iff_right hmin).trans ((and_iff_right hann).trans ?_)
    exact repeats_iff_listOf fun _ => encodes_flowEntry_iff
  have htable : lociValidateOfTableStatsReply.Encodes b ↔ 64 ∣ b.length - 12 :=
    encodes_entries_iff hann (by decide) rfl hmin
  have hport : lociValidateOfPortStatsReply.Encodes b ↔ 104 ∣ b.length - 12 :=
    encodes_entries_iff hann (by decide) rfl hmin
  have hqueue : lociValidateOfQueueStatsReply.Encodes b ↔ 32 ∣ b.length - 12 :=
    encodes_entries_iff hann (by decide) rfl hmin
  have hdesc : lociValidateOfDescStatsReply.Encodes b ↔ b.length = 1068 := by
    simp [lociValidateOfDescStatsReply, Sized.fixed, hann]
  have haggregate : lociValidateOfAggregateStatsReply.Encodes b ↔ b.length = 36 := by
    simp [lociValidateOfAggregateStatsReply, Sized.fixed, hann]
  simp only [Body.switch]
  generalize number b 8 2 = t
  by_cases ht : t ≤ 5
  · interval_cases t <;>
      simp [List.lookup_cons, hflow, htable, hport, hqueue, hdesc, haggregate]
  by_cases hexp : t = 0xffff
  · subst hexp
    simp [List.lookup_cons]
  · rw [lookup_none (by simp; omega)]
    have hne : t ≠ 0 ∧ t ≠ 1 ∧ t ≠ 2 ∧ t ≠ 3 ∧ t ≠ 4 ∧ t ≠ 5 := by omega
    simp [hexp, hne, Body.plain]

/-- What stands behind the fixed part is a list of queues. -/
lemma encodes_queueGetConfigReply_iff : lociValidateOfQueueGetConfigReply.Encodes b ↔
    16 ≤ b.length ∧ ListOf IsQueue (b.drop 16) := by
  refine and_congr_right fun _ => (and_iff_right hann).trans ?_
  exact repeats_iff_listOf fun _ => encodes_queue_iff

end Messages

/-- **What is well formed.** Of the messages of version `1.0`, what the validators accept is what
`IsMessage` says, and only the messages of experimenters are left to their validators.

**Proof sketch.** By the type of the message: either it has one length, or what its validator
accepts was said above. -/
lemma wellFormed_iff {b : List UInt8} : WellFormed b ↔ IsMessage b := by
  have hiff : IsMessage b ↔ 8 ≤ b.length ∧ number b 2 2 = b.length ∧
      (∀ n ∈ messageLength (number b 1 1), b.length = n) ∧
      (number b 1 1 = 0x1 → 10 ≤ b.length ∧ (number b 8 2 ≤ 5 → 12 ≤ b.length)) ∧
      (number b 1 1 = 0x4 → lociValidateOfExperimenter.Encodes b) ∧
      (number b 1 1 = 0x6 → 32 ≤ b.length ∧ 48 ∣ b.length - 32) ∧
      (number b 1 1 = 0xa → 18 ≤ b.length) ∧
      (number b 1 1 = 0xd → 16 + number b 14 2 ≤ b.length ∧
        ListOf IsAction ((b.drop 16).take (number b 14 2))) ∧
      (number b 1 1 = 0xe → 72 ≤ b.length ∧ ListOf IsAction (b.drop 72)) ∧
      (number b 1 1 = 0x10 → IsStatsRequest b) ∧ (number b 1 1 = 0x11 → IsStatsReply b) ∧
      (number b 1 1 = 0x15 → 16 ≤ b.length ∧ ListOf IsQueue (b.drop 16)) := by
    constructor
    · rintro ⟨h₁, h₂, h₃, h₄, h₅, h₆, h₇, h₈, h₉, h₁₀, h₁₁, h₁₂⟩
      exact ⟨h₁, h₂, h₃, h₄, h₅, h₆, h₇, h₈, h₉, h₁₀, h₁₁, h₁₂⟩
    · rintro ⟨h₁, h₂, h₃, h₄, h₅, h₆, h₇, h₈, h₉, h₁₀, h₁₁, h₁₂⟩
      exact ⟨h₁, h₂, h₃, h₄, h₅, h₆, h₇, h₈, h₉, h₁₀, h₁₁, h₁₂⟩
  rw [hiff]
  refine and_congr_right fun hmin => and_congr_right fun hann => ?_
  have hpacketIn : lociValidateOfPacketIn.Encodes b ↔ 18 ≤ b.length := by
    simp [lociValidateOfPacketIn, Sized.object, Body.plain, hann]
  simp only [Body.switch]
  generalize htype : number b 1 1 = t
  by_cases ht : t ≤ 0x16
  · interval_cases t <;>
      simp [List.lookup_cons, messageLength, hann, hmin, hpacketIn, encodes_errorMsg_iff hann,
        encodes_featuresReply_iff hann, encodes_packetOut_iff hann, encodes_flowMod_iff hann,
        encodes_statsRequest_iff hann, encodes_statsReply_iff hann,
        encodes_queueGetConfigReply_iff hann, Sized.fixed, Sized.object, Body.plain,
        lociValidateOfHello, lociValidateOfEchoRequest, lociValidateOfEchoReply,
        lociValidateOfFeaturesRequest, lociValidateOfGetConfigRequest,
        lociValidateOfGetConfigReply, lociValidateOfSetConfig, lociValidateOfFlowRemoved,
        lociValidateOfPortStatus, lociValidateOfPortMod, lociValidateOfBarrierRequest,
        lociValidateOfBarrierReply, lociValidateOfQueueGetConfigRequest, lociValidateOfTableMod]
  · have hnone : messageLength t = none := by
      unfold messageLength
      split <;> first | rfl | omega
    rw [lookup_none (by simp; omega), hnone]
    have hne : t ≠ 0x1 ∧ t ≠ 0x4 ∧ t ≠ 0x6 ∧ t ≠ 0xa ∧ t ≠ 0xd ∧ t ≠ 0xe ∧ t ≠ 0x10 ∧ t ≠ 0x11 ∧
        t ≠ 0x15 := by omega
    simp [hne, Body.plain]

end OfVersion10

/-- **What loci accepts of version `1.0`.** Let there be at least `len` bytes of a message of
version `1.0`. Then its validator ends and reads nothing behind them, what it answers depends on
them only, and `of_object_new_from_message` makes an object of them exactly if they are a message,
with the actions, entries and queues in it laid out in one way only.

**Proof sketch.** A validator carries the proof that it accepts the encodings of its format, and
those are the messages (`OfVersion10.wellFormed_iff`). -/
theorem ofObjectNewFromMessage_of10 (L : Loci) (msg : List UInt8) (len : ℕ)
    (hlen : len ≤ msg.length) (hver : ofMessageVersionGet msg = 1) :
    OfVersion10.lociValidateOfHeader.validate msg len ≠ .fault ∧
      OfVersion10.lociValidateOfHeader.validate (msg.take len) len =
        OfVersion10.lociValidateOfHeader.validate msg len ∧
      ((ofObjectNewFromMessage L.of10 msg len).isSome ↔ OfVersion10.IsMessage (msg.take len)) := by
  refine ⟨OfVersion10.lociValidateOfHeader.inside hlen,
    OfVersion10.lociValidateOfHeader.validate_take hlen, ?_⟩
  rw [ofObjectNewFromMessage_of10_isSome hlen hver, OfVersion10.wellFormed_iff]

/-- A flow modification with one action, with a byte behind it; a hello message with a body is none.
-/
theorem ofObjectNewFromMessage_of10_flowMod :
    OfVersion10.IsMessage ([1, 14, 0, 80, 0, 0, 0, 7] ++ List.replicate 64 0 ++
        [0, 0, 0, 8, 0, 1, 0, 0]) ∧
      ¬ OfVersion10.IsMessage [1, 0, 0, 9, 0, 0, 0, 7, 0] := by
  have hflow := (ofObjectNewFromMessage_of10 Loci.lenient ([1, 14, 0, 80, 0, 0, 0, 7] ++
    List.replicate 64 0 ++ [0, 0, 0, 8, 0, 1, 0, 0] ++ [5]) 80 (by decide) (by decide)).2.2
  have hhello := (ofObjectNewFromMessage_of10 Loci.lenient [1, 0, 0, 9, 0, 0, 0, 7, 0] 9
    (by decide) (by decide)).2.2
  exact ⟨hflow.mp (by decide +kernel), fun h => absurd (hhello.mpr h) (by decide +kernel)⟩

end Mproxy

import PrintServer.Lib.Chaining
import PrintServer.Lib.Checked
import PrintServer.Lib.Chunked
import PrintServer.Lib.ChunkedReader
import PrintServer.Lib.Contiguous
import PrintServer.Lib.LinkedList
import PrintServer.Lib.DoublyLinked
import PrintServer.Lib.ErrorExit
import PrintServer.Lib.Escape
import PrintServer.Lib.LockDepth
import PrintServer.Lib.Machine
import PrintServer.Lib.Memory
import PrintServer.Lib.OnesComplement
import PrintServer.Lib.Owned
import PrintServer.Lib.Ring
import PrintServer.Lib.RoundRobin
import PrintServer.Lib.Scan
import PrintServer.Lib.Threads
import PrintServer.Lib.Transfer
import PrintServer.Lib.TrialDigit
import PrintServer.Lib.Wildcard
import PrintServer.Kernel.Kmalloc
import PrintServer.Kernel.Aligned
import PrintServer.Kernel.Units
import PrintServer.Kernel.FreeList
import PrintServer.Kernel.Release
import PrintServer.Kernel.HeapRuns
import PrintServer.Kernel.Conserved
import PrintServer.Spooler.JobLog
import PrintServer.Spooler.Queue
import PrintServer.Spooler.QueueOps
import PrintServer.Spooler.PortWriter
import PrintServer.Spooler.PortOrder
import PrintServer.Spooler.PrintPattern
import PrintServer.Port.Servers
import PrintServer.Port.LockBalance
import PrintServer.Port.Ownership
import PrintServer.Receive.Convert
import PrintServer.Receive.Receivers
import PrintServer.Receive.ReturnOnce
import PrintServer.Receive.DataFile
import PrintServer.Receive.Acknowledge
import PrintServer.Receive.LineEnds
import PrintServer.Usb.DeviceId
import PrintServer.Usb.DeviceIdContained
import PrintServer.Usb.PrinterWrite
import PrintServer.Usb.PrinterWritten
import PrintServer.Flash.Crc32
import PrintServer.Flash.Image
import PrintServer.Flash.Eeprom
import PrintServer.Flash.Spi
import PrintServer.Flash.Upgrade
import PrintServer.Flash.Store
import PrintServer.Flash.Boot
import PrintServer.Flash.BootConverges
import PrintServer.Flash.MakeImage
import PrintServer.Flash.Partition
import PrintServer.Flash.Commands
import PrintServer.Flash.Verified
import PrintServer.Flash.Chain
import PrintServer.Flash.Copies
import PrintServer.Flash.Erase
import PrintServer.Flash.HeaderWalk
import PrintServer.Flash.Import
import PrintServer.Flash.Pages
import PrintServer.Http.CString
import PrintServer.Http.Decimal
import PrintServer.Http.AddressText
import PrintServer.Http.Request
import PrintServer.Http.Httpd
import PrintServer.Http.ZotFile
import PrintServer.Http.Connection
import PrintServer.Http.EchoName
import PrintServer.Http.Form
import PrintServer.Http.Lines
import PrintServer.Http.Head
import PrintServer.Http.PasswordGate
import PrintServer.Http.FormReceived
import PrintServer.Http.HeaderValues
import PrintServer.Http.InputBuffer
import PrintServer.Http.OutputBuffer
import PrintServer.Http.Slots
import PrintServer.Http.SlotsInv
import PrintServer.Http.Upload
import PrintServer.Http.UploadReceived
import PrintServer.Http.UrlDecode
import PrintServer.Ipp.Attribute
import PrintServer.Ipp.HttpRead
import PrintServer.Ipp.BodyTransport
import PrintServer.Ipp.AttributeCodec
import PrintServer.Ipp.AttributeLengths
import PrintServer.Ipp.WholeBody
import PrintServer.Ipp.Dechunked
import PrintServer.Ipp.JobList
import PrintServer.Ipp.Operations
import PrintServer.Ipp.Pointers
import PrintServer.Ipp.PointersList
import PrintServer.Ipp.PointersOwners
import PrintServer.Ipp.JobIds
import PrintServer.Ipp.JobLimit
import PrintServer.Ipp.JobListInv
import PrintServer.Ipp.PointersInv
import PrintServer.Ipp.JobOrder
import PrintServer.Ipp.OperationsSound
import PrintServer.Ipp.PointersLinks
import PrintServer.Ipp.PointersRun
import PrintServer.Ipp.Reply
import PrintServer.Ipp.ReplyFramed
import PrintServer.Ipp.Worker
import PrintServer.Ipp.WorkerInv
import PrintServer.Lpd.HoldFlag
import PrintServer.Lpd.HoldFlagInv
import PrintServer.Ipx.Sockets
import PrintServer.Ipx.Upgrade
import PrintServer.Ipx.Dispatch
import PrintServer.Ipx.SocketsInv
import PrintServer.Ipx.UpgradeInv
import PrintServer.Novell.Banner
import PrintServer.Novell.BannerExact
import PrintServer.Novell.Tables
import PrintServer.Novell.Bindery
import PrintServer.Novell.FileServers
import PrintServer.Novell.NcpRequest
import PrintServer.Novell.NcpReply
import PrintServer.Novell.NcpSocket
import PrintServer.Novell.NcpAnswer
import PrintServer.Novell.QueueTable
import PrintServer.Novell.QueuesListed
import PrintServer.Novell.QueuesComplete
import PrintServer.Novell.Service
import PrintServer.Novell.ServiceTurn
import PrintServer.Novell.ServiceRound
import PrintServer.Nds.SendFrag
import PrintServer.Nds.AttrReply
import PrintServer.Nds.AttrReplyFits
import PrintServer.Nds.AttrReplyInside
import PrintServer.Nds.AttrReplyExact
import PrintServer.Nds.Crypt
import PrintServer.Nds.Mpilib
import PrintServer.Nds.SmithModmult
import PrintServer.Nds.Modexp
import PrintServer.Nds.SendFragExact
import PrintServer.Nt.ConfigBlocks
import PrintServer.Nt.DeviceInfo
import PrintServer.Nt.EcbReceive
import PrintServer.Nt.EcbReceiveInv
import PrintServer.Nt.Request
import PrintServer.Nt.InOrder
import PrintServer.Nt.ListView
import PrintServer.Nt.ListViewRoundTrip
import PrintServer.Nt.StartPrint
import PrintServer.Nt.OneToOne
import PrintServer.Nt.Reassembled
import PrintServer.Nt.Reception
import PrintServer.Nt.SharedBuffer
import PrintServer.Nt.SharedBufferInv
import PrintServer.Nt.Utility
import PrintServer.Nt.UtilityInside
import PrintServer.Atalk.Aarp
import PrintServer.Atalk.AarpTable
import PrintServer.Atalk.AarpInv
import PrintServer.Atalk.AarpRun
import PrintServer.Atalk.AarpSound
import PrintServer.Atalk.AddressProbe
import PrintServer.Atalk.AtpResponse
import PrintServer.Atalk.BinPaprint
import PrintServer.Atalk.PostScript
import PrintServer.Atalk.PapJob
import PrintServer.Atalk.PapLine
import PrintServer.Atalk.PapPrinted
import PrintServer.Atalk.PapFidelity
import PrintServer.Atalk.BinExact
import PrintServer.Atalk.Ddp
import PrintServer.Atalk.DdpDelivered
import PrintServer.Atalk.Nbp
import PrintServer.Atalk.PapQuery
import PrintServer.Atalk.Papd
import PrintServer.Atalk.PapdSessions
import PrintServer.Atalk.PapdRun
import PrintServer.Atalk.QueryLine
import PrintServer.Atalk.QueryBounds
import PrintServer.Bridge.Table
import PrintServer.Bridge.Learned
import PrintServer.Tcpip.Checksum
import PrintServer.Telnet.CommandStream
import PrintServer.Telnet.LineEditor
import PrintServer.Telnet.SetItems
import PrintServer.Telnet.DottedQuad
import PrintServer.Telnet.ItemEdits
import PrintServer.Telnet.NetworkNames
import PrintServer.Telnet.EditsExact
import PrintServer.Tftp.Config
import PrintServer.Tftp.ConfigLines
import PrintServer.Tftp.ConfigAccepted
import PrintServer.Tftp.ConfigRoundTrip
import PrintServer.Tftp.Download
import PrintServer.Tftp.LinesInside
import PrintServer.Wlan.SendQueue

import MyCloud.Shell.Script
import MyCloud.Shell.Relational
import MyCloud.Shell.Pool
import MyCloud.Shell.Interrupt
import MyCloud.Shell.Text
import MyCloud.Shell.Segments
import MyCloud.Shell.Expand
import MyCloud.Cgi.Lib
import MyCloud.Cgi.Proof.Form
import MyCloud.Panel.World
import MyCloud.Panel.Shares
import MyCloud.Panel.Users
import MyCloud.Panel.Devices
import MyCloud.Panel.LedStatus
import MyCloud.Panel.Op
import MyCloud.Panel.Samba
import MyCloud.Panel.Stage3
import MyCloud.Panel.Proof.Conf
import MyCloud.Panel.Proof.Spec
import MyCloud.Panel.Proof.SpecUsers
import MyCloud.Panel.Proof.Quiet
import MyCloud.Panel.Proof.Change
import MyCloud.Panel.Proof.ShareDel
import MyCloud.Panel.Proof.Known
import MyCloud.Panel.Proof.Runs
import MyCloud.Panel.Proof.Stores
import MyCloud.Panel.Proof.Temporary
import MyCloud.Panel.Proof.Listing
import MyCloud.Panel.Proof.Settings
import MyCloud.Panel.Proof.Ownership
import MyCloud.Panel.Proof.ShareTable
import MyCloud.Panel.Proof.Access
import MyCloud.Panel.Proof.Revocation
import MyCloud.Panel.Proof.Concurrent
import MyCloud.Panel.Proof.Atomic
import MyCloud.Panel.Proof.Refused
import MyCloud.Panel.Proof.Truthful
import MyCloud.Cgi.Pages
import MyCloud.Cgi.Status
import MyCloud.Cgi.Proof.BestEffort
import MyCloud.Cgi.Proof.Password
import MyCloud.Cgi.Proof.Dashboard
import MyCloud.Panel.Proof.LedCache
import MyCloud.Panel.Argv
import MyCloud.Panel.Proof.Injection
import MyCloud.Panel.Proof.System
import MyCloud.Recycle.Bin
import MyCloud.Recycle.Proof.Retention
import MyCloud.Flash.Rootfs
import MyCloud.Flash.Proof.Safety
import MyCloud.Tools.AlignmentScan
import MyCloud.Tools.Proof.Alignment
import MyCloud.Tools.MakeShares
import MyCloud.Tools.Proof.MakeShares
import MyCloud.Tools.Proof.Converge
import MyCloud.Tools.Proof.Provision
import MyCloud.Wire.Dns
import MyCloud.Wsdd.Net
import MyCloud.Wsdd.Llmnr
import MyCloud.Wire.Search
import MyCloud.Wire.Network
import MyCloud.Wsdd.Boot
import MyCloud.Wsdd.Soap
import MyCloud.Wsdd.Http
import MyCloud.Wsdd.Daemon
import MyCloud.Wsdd.Proof.Llmnr
import MyCloud.Wsdd.Proof.Soap
import MyCloud.Wsdd.Proof.Network
import MyCloud.Wsdd.Proof.Http
import MyCloud.Wsdd.Proof.Daemon
import MyCloud.Web.Html
import MyCloud.Cgi.Tables
import MyCloud.Cgi.Proof.Tables
import MyCloud.Cgi.Proof.Buttons
import MyCloud.Cgi.Proof.Adding
import MyCloud.Shell.History
import MyCloud.Panel.Proof.Usb
import MyCloud.Wsdd.Proof.Boot
import MyCloud.Wire.Netlink
import MyCloud.Wsdd.Netlink
import MyCloud.Wsdd.Proof.Netlink

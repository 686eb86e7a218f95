/-! The names of the platform's classes, globals and methods, with what each call is for. -/
namespace Flowchart.Platform

/-- What a platform call is for. -/
inductive Category where
  | database
  | loop
  | filter
  | read
  | write
  | config
  | system
  | form
  | list
  | user
  | portal
  | catalog
  | workflow
  | record
  | notification
  | event
  | client
  | rest
  | flow
  | ajax
  deriving DecidableEq, Repr

def Category.name : Category → String
  | database => "database"
  | loop => "loop"
  | filter => "filter"
  | read => "read"
  | write => "write"
  | config => "config"
  | system => "system"
  | form => "form"
  | list => "list"
  | user => "user"
  | portal => "portal"
  | catalog => "catalog"
  | workflow => "workflow"
  | record => "record"
  | notification => "notification"
  | event => "event"
  | client => "client"
  | rest => "rest"
  | flow => "flow"
  | ajax => "ajax"

/-- Classes and globals that a `new` expression may name. -/
def classes : List String := [
  "GlideRecord", "GlideRecordSecure", "GlideAggregate", "GlideQuery", "GlideQueryCondition",
  "GlideDateTime", "GlideDate", "GlideTime", "GlideDuration", "GlideSchedule",
  "GlideCalendarDateTime", "GlideSystem", "GlideSysAttachment", "GlideSysAttachmentInputStream",
  "GlideLocale", "GlideApplicationProperty", "GlideUser", "GlideSession", "GlideImpersonate",
  "GlideElement", "GlideElementDescriptor", "GlideAjax", "GlideForm", "GlideList2", "GlideModal",
  "GlideDialogWindow", "GlideDialogForm", "GlideScopedEvaluator", "GlideFilter",
  "GlideScriptedExtensionPoint", "GlidePluginManager", "GlideEmailOutbound", "GlideHTTPRequest",
  "GlideHTTPResponse", "RESTMessageV2", "RESTResponseV2", "SOAPMessageV2", "SOAPResponseV2",
  "sn_ws", "sn_fd", "sn_cc", "sn_sc", "sn_hr", "sn_cmdb", "sn_connect", "sn_discovery", "sn_impex",
  "sn_km", "sn_notification", "FlowAPI", "FlowScriptAPI", "XMLDocument2", "XMLNode",
  "XMLNodeIterator", "GlideXMLUtil", "GlideRecordUtil", "GlideStringUtil", "TableUtils",
  "ArrayUtil", "JSUtil", "GlideExcelParser", "GlideDigest", "GlideEncrypter", "GlideSecureRandom",
  "GlideSecureRandomUtil", "GlideCertificateEncryption", "GlideTableHierarchy",
  "GlideDBFunctionBuilder", "GlideJsonPath", "GlideScriptableInputStream", "GlideMultiRecurrence",
  "GlideImportLog", "GlideImportSetRun", "GlideImportSetTransformer", "CMDBUtil", "Workflow",
  "WorkflowScheduler", "GlideOAuthClient", "GlideOAuthClientRequest", "GlideOAuthClientResponse",
  "GlideOAuthToken", "GlideSPScriptable", "AbstractAjaxProcessor", "GlideUpdateManager",
  "GlideUpdateSet", "GlideAppLoader", "GlideScriptedProcessor", "GlideServletRequest",
  "GlideServletResponse", "GlideCurrencyConfig", "GlideEventManager", "g_form", "g_list", "g_user",
  "g_scratchpad", "g_navigation", "g_modal", "spUtil", "spModal", "gs", "current", "previous",
  "action", "email", "event", "producer", "request", "response", "workflow", "activity", "context",
  "RP", "$sp", "data", "input", "options", "g_processor"]

/-- Namespaces all of whose members are platform classes. -/
def namespaces : List String := [
  "sn_ws", "sn_fd", "sn_cc", "sn_sc", "sn_cmdb", "sn_hr"]

/-- Record methods that run a query or change records. -/
def recordDatabaseMethods : List String := [
  "query", "get", "insert", "update", "updateMultiple", "deleteRecord", "deleteMultiple",
  "initialize", "newRecord", "select", "selectOne", "toGlideRecord", "getBy"]

/-- Record methods that step through a result. -/
def recordLoopMethods : List String := [
  "next", "hasNext", "_next", "_query"]

/-- Record methods that build a query. -/
def recordFilterMethods : List String := [
  "addQuery", "addEncodedQuery", "addNullQuery", "addNotNullQuery", "addJoinQuery",
  "addActiveQuery", "addInactiveQuery", "addOrCondition", "addDomainQuery", "addFunction",
  "setCategory", "setLimit", "setEncodedQuery", "orderBy", "orderByDesc", "addOrderBy",
  "chooseWindow", "addAggregate", "groupBy", "addHaving", "addTrend", "where", "whereNull",
  "whereNotNull", "orWhere", "limit", "aggregate", "having", "parse"]

/-- Record methods that read values. -/
def recordReadMethods : List String := [
  "getValue", "getDisplayValue", "getElement", "getRowCount", "getTableName", "getRecordClassName",
  "getClassDisplayValue", "getEncodedQuery", "getUniqueValue", "getLink", "getLabel",
  "getAttribute", "getED", "getLastErrorMessage", "getBooleanValue", "getFields", "getElements",
  "getReference", "getReferenceTable", "getAttachments", "isValid", "isValidField",
  "isValidRecord", "isNewRecord", "isActionAborted", "canRead", "canWrite", "canCreate",
  "canDelete", "changes", "changesTo", "changesFrom", "nil", "getAggregate", "getQuery", "avg",
  "count", "max", "min", "sum"]

/-- Record methods that set values. -/
def recordWriteMethods : List String := [
  "setValue", "setDisplayValue", "applyTemplate", "autoSysFields", "setNewGuidValue",
  "setLocation"]

/-- Record methods that configure the record. -/
def recordConfigMethods : List String := [
  "setWorkflow", "setAbortAction", "setForceUpdate", "setQueryReferences", "operation",
  "disableWorkflow", "forceUpdate", "withAcls"]

/-- The methods of records, aggregates and queries. -/
def recordMethods : List (List String × Category) := [
  (recordDatabaseMethods, .database),
  (recordLoopMethods, .loop),
  (recordFilterMethods, .filter),
  (recordReadMethods, .read),
  (recordWriteMethods, .write),
  (recordConfigMethods, .config)]

/-- Methods of the system object. -/
def systemMethods : List String := [
  "log", "info", "warn", "error", "debug", "print", "logError", "logWarning", "getUserID",
  "getUserName", "getUserDisplayName", "getUser", "getSession", "getSessionID", "getSessionToken",
  "hasRole", "hasRoleInGroup", "hasRoleExactly", "isLoggedIn", "isInteractive", "isMobile",
  "getImpersonatingUserName", "now", "nowDateTime", "nowNoTZ", "daysAgo", "daysAgoStart",
  "daysAgoEnd", "hoursAgo", "hoursAgoStart", "hoursAgoEnd", "minutesAgo", "minutesAgoStart",
  "minutesAgoEnd", "monthsAgo", "monthsAgoStart", "monthsAgoEnd", "quartersAgo",
  "quartersAgoStart", "quartersAgoEnd", "yearsAgo", "yearsAgoStart", "yearsAgoEnd",
  "beginningOfLastMonth", "beginningOfLastWeek", "beginningOfLastYear", "beginningOfNextMonth",
  "beginningOfNextWeek", "beginningOfNextYear", "beginningOfThisMonth", "beginningOfThisQuarter",
  "beginningOfThisWeek", "beginningOfThisYear", "beginningOfToday", "endOfLastMonth",
  "endOfLastWeek", "endOfLastYear", "endOfNextMonth", "endOfNextWeek", "endOfNextYear",
  "endOfThisMonth", "endOfThisQuarter", "endOfThisWeek", "endOfThisYear", "endOfToday",
  "dateGenerate", "dateDiff", "getProperty", "setProperty", "getPreference", "setPreference",
  "getEscapedProperty", "cacheFlush", "getMessage", "addInfoMessage", "addErrorMessage",
  "flushMessages", "getErrorMessages", "getInfoMessages", "include", "loadGlobalScripts", "nil",
  "tableExists", "generateGUID", "urlEncode", "urlDecode", "xmlToJSON", "base64Encode",
  "base64Decode", "getDisplayColumn", "getDisplayName", "getMaxSchemaNameLength",
  "getNewAppScopeCompanyPrefix", "getNodeName", "getNodeValue", "getSysTimeZone", "getXMLText",
  "getXMLNodeList", "sleep", "setRedirect", "setReturn", "getCurrentScopeName",
  "getCallerScopeName", "setCurrentApplicationId", "eventQueue", "eventQueueScheduled",
  "workflowFlush", "isDebugging", "getTimeZoneName", "getUrlOnStack", "action", "getStyle",
  "getDisplayValueFor"]

/-- Methods of the client form. -/
def formMethods : List String := [
  "getValue", "setValue", "getDisplayValue", "clearValue", "getIntValue", "getBooleanValue",
  "getDecimalValue", "getActionName", "setVisible", "isVisible", "setMandatory", "isMandatory",
  "setReadOnly", "isReadOnly", "setDisabled", "isDisabled", "setDisplay", "getReference",
  "addOption", "removeOption", "clearOptions", "getOption", "getOptionControl", "showFieldMsg",
  "hideFieldMsg", "showErrorBox", "hideErrorBox", "addInfoMessage", "addErrorMessage",
  "clearMessages", "hideAllFieldMsgs", "getLabelOf", "setLabelOf", "addDecoration",
  "removeDecoration", "hideRelatedList", "hideRelatedLists", "showRelatedList", "showRelatedLists",
  "setSectionDisplay", "isSectionVisible", "activateTab", "getTabNameForField", "flash",
  "getControl", "getElement", "getFormElement", "getSectionNames", "getSections", "getTableName",
  "getUniqueValue", "hasField", "isNewRecord", "save", "submit", "enableAttachments",
  "disableAttachments", "hasAttribute", "removeAttribute", "addAttribute", "setScope",
  "refreshSlushbucket", "isLiveUpdating", "registerHandler", "removeCurrentPrefix"]

/-- Methods of the client list. -/
def listMethods : List String := [
  "addFilter", "get", "getByName", "getChecked", "getFilter", "getFixedQuery", "getGroupBy",
  "getListName", "getOrderBy", "getParentTable", "getQuery", "getRelated", "getRelationshipID",
  "getTableName", "getTitle", "getView", "isUserList", "refresh", "refreshWithOrderBy",
  "setFilter", "setFilterAndRefresh", "setFirstRow", "setGroupBy", "setOrderBy", "setRelated",
  "setRows", "setRowsPerPage", "showHideGroups", "showHideList", "sort", "sortDescending",
  "toggleList", "toggleListNoPref"]

/-- Methods of the client user. -/
def userMethods : List String := [
  "getClientData", "getFullName", "getName", "getUserID", "getUserName", "hasRole",
  "hasRoleExactly", "hasRoleFromList"]

/-- Client methods of the portal. -/
def portalClientMethods : List String := [
  "addErrorMessage", "addInfoMessage", "addTrivialMessage", "createUid", "format", "get",
  "getPreference", "parseAttributes", "recordWatch", "refresh", "scrollTo", "setBreadCrumb",
  "setPreference", "setSearchPage", "update"]

/-- Server methods of the portal. -/
def portalServerMethods : List String := [
  "canReadRecord", "canSeePage", "getCatalogItem", "getDisplayValue", "getField", "getFields",
  "getFieldsObject", "getForm", "getKBCategoryArticles", "getKBCount", "getKBRecord",
  "getKBSiblingCategories", "getKBTopCategoryID", "getListColumns", "getMenuHREF", "getMenuItems",
  "getParameter", "getPortalRecord", "getRecord", "getRecordDisplayValues", "getRecordElements",
  "getRecordValues", "getRelatedList", "getSCRecord", "getStream", "getValues", "getWidget",
  "getWidgetFromInstance", "getWidgetParameters", "getWidgetScope", "logStat",
  "mapRecordToUIAction", "showCatalogPrices", "translateTemplate"]

/-- Methods of asynchronous requests. -/
def ajaxMethods : List String := [
  "addParam", "getParam", "getXML", "getXMLAnswer", "getXMLWait", "getAnswer", "setScope",
  "setProcessor", "setErrorCallback", "getParameter", "getResponseValue", "newItem"]

/-- Methods of workflows. -/
def workflowMethods : List String := [
  "broadcastEvent", "cancel", "cancelContext", "deleteWorkflow", "fireEvent", "fireEventById",
  "getContexts", "getEstimatedDeliveryTime", "getEstimatedDeliveryTimeFromWFVersion",
  "getReturnValue", "getRunningFlows", "getVersion", "getVersionFromName", "getWorkflowFromName",
  "hasWorkflow", "restartWorkflow", "runFlows", "startFlow", "startFlowFromContextInsert",
  "startFlowRetroactive"]

/-- The methods that count whatever their receiver is, in the order in which they are tried. -/
def methodTables : List (List String × Category) := [
  (systemMethods, .system), (formMethods, .form), (listMethods, .list), (userMethods, .user),
  (portalClientMethods, .portal), (portalServerMethods, .portal), (ajaxMethods, .ajax),
  (workflowMethods, .workflow)]

/-- The objects all of whose methods count. -/
def receivers : List (String × Category) := [
  ("gs", .system),
  ("g_form", .form),
  ("g_list", .list),
  ("g_user", .user),
  ("spUtil", .portal),
  ("$sp", .portal),
  ("g_service_catalog", .catalog),
  ("workflow", .workflow),
  ("current", .record),
  ("previous", .record),
  ("email", .notification),
  ("event", .event),
  ("g_scratchpad", .client),
  ("request", .rest),
  ("response", .rest),
  ("sn_ws", .rest),
  ("sn_fd", .flow)]

/-- The category of the first table that lists the name. -/
def categoryIn (tables : List (List String × Category)) (name : String) : Option Category :=
  (tables.find? (·.1.contains name)).map (·.2)

end Flowchart.Platform
